import DevfsBinder.DeviceNodes
import Mathlib.Data.List.Basic

/-!
# Loading and unloading the extension

`devfs.c` takes a lock group, the driver lock, a memory tag and a character
device major, publishes the nodes, and gives everything back in the reverse order
at unload; `android_dev.c` adds two stub devices with majors of their own.  The
kernel may refuse any of these requests.  It keeps what it gave across loads,
while the globals of the extension start afresh with every load, so what an
attempt does not give back is lost until the next boot.

* A start that fails gives everything back exactly if it failed before the first
  node was made (`failed_start_clean_iff`): `fail_cdevsw` leaves the nodes of the
  contexts that were published, and `fail_android` leaves everything.
* Along every sequence of attempts, requests to `binder-control` and unloads,
  the locks, the tags and the majors that the kernel still holds are those of the
  loaded extension, one of each for every start that failed in
  `android_devices_init`, and the two majors of `android_dev.c` for every load
  (`holdings_of_lifetime`).  They are never removed, so the extension can be
  loaded at most half as often as there are majors (`loads_bounded`).
-/

namespace Binder

/-! ## What the kernel keeps -/

/-- Whose `struct cdevsw` it is. -/
inductive Switch
  | binder
  | properties
  | kmsg
  | foreign
  deriving DecidableEq, Repr

/-- The `sysctl` oids of `devfs.c`, the parent first. -/
inductive Oid
  | node
  | procs
  | threads
  | nodes
  | refs
  | transactions
  | arenaBytes
  | kdataBytes
  | failed
  deriving DecidableEq, Repr

/-- A node in `/dev`, named by the load that made it, the device it belongs to
and the handle it has there. -/
structure DevNode where
  load : Nat
  device : Switch
  handle : Nat
  deriving DecidableEq, Repr

/-- The kernel, as far as loading and unloading are concerned. -/
structure Kernel where
  cdevsw : List (Option Switch)
  lckGrps : Nat := 0
  lckMtxs : Nat := 0
  tags : Nat := 0
  oids : List Oid := []
  nodes : List DevNode := []
  attempts : Nat := 0
  deriving DecidableEq, Repr

namespace Kernel

variable (k : Kernel)

/-- `cdevsw_add` with index -1; `slot` is the entry the kernel would take. -/
def cdevswAdd (slot : Option Nat) (sw : Switch) : Option Nat × Kernel :=
  match slot with
  | none => (none, k)
  | some i =>
      if k.cdevsw[i]? = some none then (some i, { k with cdevsw := k.cdevsw.set i (some sw) })
      else (none, k)

/-- `cdevsw_remove`: the entry has to be the caller's. -/
def cdevswRemove (major : Nat) (sw : Switch) : Kernel :=
  if k.cdevsw[major]? = some (some sw) then { k with cdevsw := k.cdevsw.set major none } else k

def takeGroup : Kernel := { k with lckGrps := k.lckGrps + 1 }
def giveGroup : Kernel := { k with lckGrps := k.lckGrps - 1 }
def takeMutex : Kernel := { k with lckMtxs := k.lckMtxs + 1 }
def giveMutex : Kernel := { k with lckMtxs := k.lckMtxs - 1 }
def takeTag : Kernel := { k with tags := k.tags + 1 }
def giveTag : Kernel := { k with tags := k.tags - 1 }

/-- `devfs_make_node`, answered with a node. -/
def publish (n : DevNode) : Kernel := { k with nodes := n :: k.nodes }

/-- `devfs_remove` -/
def devfsRemove (n : DevNode) : Kernel := { k with nodes := k.nodes.filter (· ≠ n) }

/-- The nodes behind the handles of the binder contexts. -/
def publishContexts (load : Nat) (handles : List Nat) : Kernel :=
  { k with nodes := handles.map (fun handle => ⟨load, .binder, handle⟩) ++ k.nodes }

/-- `devfs_sysctl_register` -/
def sysctlRegister : Kernel :=
  { k with oids := [Oid.node, .procs, .threads, .nodes, .refs, .transactions, .arenaBytes,
      .kdataBytes, .failed].foldl (fun oids oid => oid :: oids) k.oids }

/-- `devfs_sysctl_unregister` -/
def sysctlUnregister : Kernel :=
  { k with oids := [Oid.failed, .kdataBytes, .arenaBytes, .transactions, .refs, .nodes, .threads,
      .procs, .node].foldl List.erase k.oids }

end Kernel

/-! ## The extension -/

/-- What the kernel answers during one attempt to load. -/
structure Answers where
  lckGrpAttr : Bool := true
  lckGrp : Bool := true
  lckMtx : Bool := true
  tag : Bool := true
  binderSlot : Option Nat
  contexts : Nat → Bool := fun _ => true
  propSlot : Option Nat
  propNode : Bool := true
  kmsgSlot : Option Nat
  kmsgNode : Bool := true

/-- The globals of the extension. -/
structure Kext where
  load : Nat
  devfsLckGrp : Bool := false
  binderLock : Bool := false
  devfsOsmallocTag : Bool := false
  devfsMajor : Option Nat := none
  contexts : NodeTable := {}
  propHandle : Option DevNode := none
  kmsgHandle : Option DevNode := none

/-- Where a start failed, as the log has it. -/
inductive StartFailure
  | lckGrpAttr
  | lckGrp
  | lckMtx
  | tag
  | cdevsw
  | binderDevices (error : Errno)
  | androidDevices (error : Errno)
  deriving DecidableEq, Repr

namespace Kext

/-- `fail_prop` -/
def failProp (k : Kernel) (x : Kext) (error : Errno) : Kernel × Kext × Option Errno :=
  match x.propHandle with
  | some n => (k.devfsRemove n, { x with propHandle := none }, some error)
  | none => (k, x, some error)

/-- `android_devices_init` -/
def androidDevicesInit (a : Answers) (k : Kernel) (x : Kext) : Kernel × Kext × Option Errno :=
  match k.cdevswAdd a.propSlot .properties with
  | (none, k) => (k, x, some .enomem)
  | (some _, k) =>
      if a.propNode = false then failProp k x .enomem
      else
        let node : DevNode := ⟨x.load, .properties, 0⟩
        let k := k.publish node
        let x := { x with propHandle := some node }
        match k.cdevswAdd a.kmsgSlot .kmsg with
        | (none, k) => failProp k x .enomem
        | (some major, k) =>
            if a.kmsgNode = false then failProp (k.cdevswRemove major .kmsg) x .enomem
            else
              let node : DevNode := ⟨x.load, .kmsg, 0⟩
              (k.publish node, { x with kmsgHandle := some node }, none)

/-- `android_devices_fini` -/
def androidDevicesFini (k : Kernel) (x : Kext) : Kernel × Kext :=
  let (k, x) := match x.propHandle with
    | some n => (k.devfsRemove n, { x with propHandle := none })
    | none => (k, x)
  match x.kmsgHandle with
  | some n => (k.devfsRemove n, { x with kmsgHandle := none })
  | none => (k, x)

/-! The labels of `devfs_start`, in their order in the source. -/

def failGrp (k : Kernel) : Kernel := k.giveGroup
def failLock (k : Kernel) : Kernel := failGrp k.giveMutex
def failTag (k : Kernel) : Kernel := failLock k.giveTag
def failCdevsw (k : Kernel) (major : Nat) : Kernel := failTag (k.cdevswRemove major .binder)

/-- The end of `devfs_start`, once it has its major. -/
def startDevices (a : Answers) (k : Kernel) (x : Kext) (major : Nat) :
    Kernel × Except StartFailure Kext :=
  match NodeTable.devicesInit a.contexts with
  | (t, some error) =>
      (failCdevsw (k.publishContexts x.load t.returned) major, .error (.binderDevices error))
  | (t, none) =>
      let k := k.publishContexts x.load t.returned
      match androidDevicesInit a k { x with devfsMajor := some major, contexts := t } with
      | (k, _, some error) => (k, .error (.androidDevices error))
      | (k, x, none) => (k.sysctlRegister, .ok x)

/-- `devfs_start`, from `cdevsw_add` on. -/
def startSwitch (a : Answers) (k : Kernel) (x : Kext) : Kernel × Except StartFailure Kext :=
  match k.cdevswAdd a.binderSlot .binder with
  | (none, k) => (failTag k, .error .cdevsw)
  | (some major, k) => startDevices a k x major

/-- `devfs_start` -/
def devfsStart (a : Answers) (k : Kernel) : Kernel × Except StartFailure Kext :=
  let x : Kext := { load := k.attempts }
  let k := { k with attempts := k.attempts + 1 }
  if a.lckGrpAttr = false then (k, .error .lckGrpAttr)
  else if a.lckGrp = false then (k, .error .lckGrp)
  else
    let k := k.takeGroup
    if a.lckMtx = false then (failGrp k, .error .lckMtx)
    else
      let k := k.takeMutex
      if a.tag = false then (failLock k, .error .tag)
      else
        startSwitch a k.takeTag
          { x with devfsLckGrp := true, binderLock := true, devfsOsmallocTag := true }

/-- `binder_devices_fini`, and what becomes of the nodes. -/
def binderDevicesFini (k : Kernel) (x : Kext) : Kernel × Kext :=
  (x.contexts.devicesFini.removed.foldl
    (fun k handle => k.devfsRemove ⟨x.load, .binder, handle⟩) k,
    { x with contexts := x.contexts.devicesFini })

/-- `devfs_stop` -/
def devfsStop (k : Kernel) (x : Kext) : Kernel :=
  let k := k.sysctlUnregister
  let (k, x) := androidDevicesFini k x
  let (k, x) := binderDevicesFini k x
  let k := match x.devfsMajor with
    | some major => k.cdevswRemove major .binder
    | none => k
  let k := if x.devfsOsmallocTag then k.giveTag else k
  let k := if x.binderLock then k.giveMutex else k
  if x.devfsLckGrp then k.giveGroup else k

end Kext

/-! ## Lifetimes -/

/-- The kernel, the extension if it is loaded, the requests to `binder-control`
whose nodes are being made, how many starts have succeeded, and how many have
failed in `android_devices_init`. -/
structure Machine where
  kernel : Kernel
  kext : Option Kext := none
  inFlight : List Nat := []
  loads : Nat := 0
  stuck : Nat := 0

namespace Machine

/-- An attempt to load the extension. -/
def start (m : Machine) (a : Answers) : Machine :=
  match Kext.devfsStart a m.kernel with
  | (k, .ok x) => { m with kernel := k, kext := some x, loads := m.loads + 1 }
  | (k, .error (.androidDevices _)) => { m with kernel := k, stuck := m.stuck + 1 }
  | (k, .error _) => { m with kernel := k }

/-- The extension is unloaded. -/
def stop (m : Machine) (x : Kext) : Machine :=
  { m with kernel := Kext.devfsStop m.kernel x, kext := none }

end Machine

/-- What can happen to a machine after it has booted.  Nodes are made for entries
that satisfy `ok`, and the extension is unloaded only when nobody has its devices
open. -/
inductive Lifetime (ok : NodeTable → Nat → Prop) (boot : Kernel) : Machine → Prop
  | boot : Lifetime ok boot { kernel := boot }
  | start {m : Machine} (h : Lifetime ok boot m) (hidle : m.kext = none) (a : Answers) :
      Lifetime ok boot (m.start a)
  | refused {m : Machine} {x : Kext} (h : Lifetime ok boot m) (hx : m.kext = some x)
      (raw : LittleEndian.Bytes) (t : NodeTable) (error : Errno)
      (hadd : x.contexts.ctlAddReserve raw = (t, .error error)) :
      Lifetime ok boot { m with kext := some { x with contexts := t } }
  | reserved {m : Machine} {x : Kext} (h : Lifetime ok boot m) (hx : m.kext = some x)
      (raw : LittleEndian.Bytes) (t : NodeTable) (i : Nat)
      (hadd : x.contexts.ctlAddReserve raw = (t, .ok i)) :
      Lifetime ok boot
        { m with kext := some { x with contexts := t }, inFlight := i :: m.inFlight }
  | published {m : Machine} {x : Kext} (h : Lifetime ok boot m) (hx : m.kext = some x) (i : Nat)
      (hi : i ∈ m.inFlight) (made : Bool) (hok : made = true → ok x.contexts i) :
      Lifetime ok boot
        { m with
          kernel := if made then m.kernel.publish ⟨x.load, .binder, x.contexts.nextHandle⟩
            else m.kernel
          kext := some { x with contexts := (x.contexts.ctlAddPublish i made).1 }
          inFlight := m.inFlight.erase i }
  | stop {m : Machine} {x : Kext} (h : Lifetime ok boot m) (hx : m.kext = some x)
      (hquiet : m.inFlight = []) : Lifetime ok boot (m.stop x)

/-! ## Majors -/

/-- A free entry of the table is taken. -/
inductive Registers (sw : Switch) : List (Option Switch) → List (Option Switch) → Prop
  | mk (table : List (Option Switch)) (i : Nat) (hi : table[i]? = some none) :
      Registers sw table (table.set i (some sw))

theorem Registers.length {sw : Switch} {before after : List (Option Switch)}
    (h : Registers sw before after) : after.length = before.length := by
  obtain ⟨i, -⟩ := h
  exact List.length_set

/-- The other entries stay. -/
theorem Registers.keeps {sw sw' : Switch} {before after : List (Option Switch)}
    (h : Registers sw before after) {j : Nat} (hj : before[j]? = some (some sw')) :
    after[j]? = some (some sw') := by
  obtain ⟨i, hi⟩ := h
  have hne : i ≠ j := by
    intro heq
    rw [heq, hj] at hi
    cases hi
  rw [List.getElem?_set_ne hne, hj]

theorem Registers.count {sw : Switch} {before after : List (Option Switch)}
    (h : Registers sw before after) (sw' : Switch) :
    after.count (some sw') = before.count (some sw') + if sw = sw' then 1 else 0 := by
  obtain ⟨i, hi⟩ := h
  obtain ⟨hlt, hget⟩ := List.getElem?_eq_some_iff.mp hi
  simp [List.count_set hlt, hget]

/-- The entry is given back. -/
theorem count_removed {table : List (Option Switch)} {i : Nat} {sw : Switch}
    (hi : table[i]? = some (some sw)) (sw' : Switch) :
    table.count (some sw') =
      (table.set i none).count (some sw') + if sw = sw' then 1 else 0 := by
  obtain ⟨hlt, hget⟩ := List.getElem?_eq_some_iff.mp hi
  have hmem : some sw ∈ table := hget ▸ List.getElem_mem hlt
  have hpos := List.count_pos_iff.mpr hmem
  rw [List.count_set hlt, hget]
  by_cases hsw : sw = sw'
  · subst hsw
    simp only [beq_self_eq_true, if_true]
    simp
    omega
  · simp [hsw]

namespace Kernel

variable {k : Kernel}

theorem cdevswAdd_cases (k : Kernel) (slot : Option Nat) (sw : Switch) :
    (k.cdevswAdd slot sw = (none, k) ∧ ∀ i, slot = some i → k.cdevsw[i]? ≠ some none) ∨
      ∃ i, slot = some i ∧ k.cdevsw[i]? = some none ∧
        k.cdevswAdd slot sw = (some i, { k with cdevsw := k.cdevsw.set i (some sw) }) := by
  unfold cdevswAdd
  cases slot with
  | none => exact .inl ⟨rfl, fun i hi => by cases hi⟩
  | some i =>
      by_cases hi : k.cdevsw[i]? = some none
      · exact .inr ⟨i, rfl, hi, if_pos hi⟩
      · refine .inl ⟨if_neg hi, fun j hj => ?_⟩
        cases hj
        exact hi

/-- What `cdevsw_add` has given, `cdevsw_remove` takes back. -/
theorem cdevswRemove_added {i : Nat} {sw : Switch} (hi : k.cdevsw[i]? = some none) :
    ({ k with cdevsw := k.cdevsw.set i (some sw) } : Kernel).cdevswRemove i sw = k := by
  obtain ⟨hlt, hget⟩ := List.getElem?_eq_some_iff.mp hi
  have hset : (k.cdevsw.set i (some sw)).set i none = k.cdevsw := by
    rw [List.set_set, ← hget, List.set_getElem_self]
  simp [cdevswRemove, hlt, hset]

@[simp] theorem unregister_register (k : Kernel) : k.sysctlRegister.sysctlUnregister = k := by
  simp [sysctlRegister, sysctlUnregister]

end Kernel

namespace NodeTable

variable {oks : Nat → Bool} {t t' : NodeTable}

/-- What was given back before stays given back. -/
theorem initContexts_returned {names : List LittleEndian.Bytes} {i : Nat}
    {result : Option Errno} (h : initContexts oks i names t = (t', result)) :
    ∃ made, t'.returned = made ++ t.returned := by
  induction names generalizing i t with
  | nil =>
      cases h
      exact ⟨[], rfl⟩
  | cons name names ih =>
      cases hok : oks i with
      | false =>
          simp only [initContexts, makeNode, hok] at h
          cases h
          exact ⟨[], rfl⟩
      | true =>
          simp only [initContexts, makeNode, hok, if_true] at h
          obtain ⟨made, hmade⟩ := ih h
          exact ⟨made ++ [t.nextHandle], by simp [hmade, updEntry]⟩

theorem initContexts_first {name : LittleEndian.Bytes} {names : List LittleEndian.Bytes} {i : Nat}
    {result : Option Errno} (hok : oks i = true)
    (h : initContexts oks i (name :: names) t = (t', result)) : t.nextHandle ∈ t'.returned := by
  simp only [initContexts, makeNode, hok, if_true] at h
  obtain ⟨made, hmade⟩ := initContexts_returned h
  simp [hmade, updEntry]

/-- Without a node for the first context there is none, and the driver is not
loaded. -/
theorem devicesInit_refused (h : oks 0 = false) :
    (devicesInit oks).1.returned = [] ∧ (devicesInit oks).2 = some .enomem := by
  simp [devicesInit, staticContexts, initContexts, makeNode, h, updEntry]

/-- A driver that is loaded has a node for the first context. -/
theorem devicesInit_first (h : devicesInit oks = (t, none)) : oks 0 = true := by
  by_contra hok
  have hrefused := (devicesInit_refused (eq_false_of_ne_true hok)).2
  rw [h] at hrefused
  cases hrefused

/-- The node of the first context stays among those that were made. -/
theorem devicesInit_granted (h : oks 0 = true) : (devicesInit oks).1.returned ≠ [] := by
  have hmade : ∀ {t' : NodeTable} {result : Option Errno},
      initContexts oks 0 staticContexts {} = (t', result) → t'.returned ≠ [] := by
    intro t' result hinit
    exact List.ne_nil_of_mem (initContexts_first h hinit)
  unfold devicesInit
  split
  · rename_i t error hinit
    exact hmade hinit
  · rename_i t hinit
    cases oks staticContexts.length with
    | false => exact hmade hinit
    | true => simp [makeNode, updEntry]

end NodeTable

/-! ## One start -/

namespace Kext

variable {k k' : Kernel} {a : Answers}

/-- What `android_devices_init` leaves in the table of majors if it fails: at
most the major of `__properties__`. -/
inductive AndroidLeft (table : List (Option Switch)) : List (Option Switch) → Prop
  | nothing : AndroidLeft table table
  | properties {after : List (Option Switch)} (h : Registers .properties table after) :
      AndroidLeft table after

theorem failProp_some {x : Kext} {n : DevNode} (h : x.propHandle = some n) (error : Errno) :
    failProp k x error = (k.devfsRemove n, { x with propHandle := none }, some error) := by
  simp [failProp, h]

theorem filter_own {nodes : List DevNode} {n : DevNode} (h : n ∉ nodes) :
    (n :: nodes).filter (· ≠ n) = nodes := by
  rw [List.filter_cons_of_neg (by simp), List.filter_eq_self]
  intro n' hn'
  simp only [decide_eq_true_eq]
  intro heq
  exact h (heq ▸ hn')

/-- **`android_devices_init`.**  The majors it adds, and the nodes, if it
succeeds; a node that was made before a failure is removed, its major is not. -/
theorem androidDevicesInit_cases (a : Answers) (k : Kernel) (x : Kext)
    (hprop : x.propHandle = none) (hfresh : (⟨x.load, .properties, 0⟩ : DevNode) ∉ k.nodes) :
    (∃ table x', AndroidLeft k.cdevsw table ∧
      androidDevicesInit a k x = ({ k with cdevsw := table }, x', some .enomem)) ∨
    ∃ between after, Registers .properties k.cdevsw between ∧ Registers .kmsg between after ∧
      androidDevicesInit a k x =
        ({ k with
            cdevsw := after
            nodes := ⟨x.load, .kmsg, 0⟩ :: ⟨x.load, .properties, 0⟩ :: k.nodes },
          { x with
            propHandle := some ⟨x.load, .properties, 0⟩
            kmsgHandle := some ⟨x.load, .kmsg, 0⟩ }, none) := by
  unfold androidDevicesInit
  rcases k.cdevswAdd_cases a.propSlot .properties with ⟨heq, -⟩ | ⟨i, -, hi, heq⟩
  · rw [heq]
    exact .inl ⟨k.cdevsw, x, .nothing, rfl⟩
  have hadds : Registers .properties k.cdevsw (k.cdevsw.set i (some .properties)) := .mk _ i hi
  rw [heq]
  simp only
  split
  · exact .inl ⟨_, x, .properties hadds, by rw [failProp, hprop]⟩
  -- the node of the properties is there
  generalize hk₁ : ({ k with cdevsw := k.cdevsw.set i (some .properties) } : Kernel).publish
    ⟨x.load, .properties, 0⟩ = k₁
  have hdone : k₁.devfsRemove ⟨x.load, .properties, 0⟩ =
      { k with cdevsw := k.cdevsw.set i (some .properties) } := by
    rw [← hk₁]
    simp only [Kernel.publish, Kernel.devfsRemove, filter_own hfresh]
  rcases k₁.cdevswAdd_cases a.kmsgSlot .kmsg with ⟨heq, -⟩ | ⟨j, -, hj, heq⟩
  · rw [heq]
    simp only
    exact .inl ⟨_, _, .properties hadds, by rw [failProp_some rfl, hdone]⟩
  rw [heq]
  simp only
  split
  · rw [Kernel.cdevswRemove_added hj]
    exact .inl ⟨_, _, .properties hadds, by rw [failProp_some rfl, hdone]⟩
  · subst hk₁
    exact .inr ⟨_, _, hadds, .mk _ j hj, rfl⟩

end Kext

/-- Everything up to the major is granted. -/
def Answers.GetsMajor (a : Answers) (k : Kernel) : Prop :=
  a.lckGrpAttr = true ∧ a.lckGrp = true ∧ a.lckMtx = true ∧ a.tag = true ∧
    ∃ i, a.binderSlot = some i ∧ k.cdevsw[i]? = some none

/-- The kernel after an attempt that has left nothing. -/
def Kernel.tried (k : Kernel) : Kernel := { k with attempts := k.attempts + 1 }

/-- Every node is of an earlier attempt. -/
def Kernel.Fresh (k : Kernel) : Prop := ∀ n ∈ k.nodes, n.load < k.attempts

/-- The kernel after an attempt that has got the lock group, the lock and the
tag, with the given majors and nodes. -/
def Kernel.granted (k : Kernel) (table : List (Option Switch)) (nodes : List DevNode) : Kernel :=
  { k with
    cdevsw := table
    lckGrps := k.lckGrps + 1
    lckMtxs := k.lckMtxs + 1
    tags := k.tags + 1
    nodes := nodes
    attempts := k.attempts + 1 }

/-- The nodes of the binder contexts of an attempt. -/
def contextNodes (load : Nat) (t : NodeTable) : List DevNode :=
  t.returned.map fun handle => ⟨load, .binder, handle⟩

/-- What a start can do. -/
inductive Started (a : Answers) (k : Kernel) : Kernel × Except StartFailure Kext → Prop
  | early (f : StartFailure) (hf : ∀ error, f ≠ .androidDevices error)
      (hf' : ∀ error, f ≠ .binderDevices error) (h : ¬ a.GetsMajor k) :
      Started a k (k.tried, .error f)
  | contexts (t : NodeTable) (error : Errno) (h : a.GetsMajor k)
      (ht : NodeTable.devicesInit a.contexts = (t, some error)) :
      Started a k ({ k.tried with nodes := contextNodes k.attempts t ++ k.nodes },
        .error (.binderDevices error))
  | android (t : NodeTable) (h : a.GetsMajor k)
      (ht : NodeTable.devicesInit a.contexts = (t, none))
      (between after : List (Option Switch)) (hadds : Registers .binder k.cdevsw between)
      (hleft : Kext.AndroidLeft between after) :
      Started a k (k.granted after (contextNodes k.attempts t ++ k.nodes),
        .error (.androidDevices .enomem))
  | loaded (t : NodeTable) (h : a.GetsMajor k)
      (ht : NodeTable.devicesInit a.contexts = (t, none)) (major : Nat)
      (hmajor : k.cdevsw[major]? = some none) (between after : List (Option Switch))
      (hprop : Registers .properties (k.cdevsw.set major (some .binder)) between)
      (hkmsg : Registers .kmsg between after) :
      Started a k
        ((k.granted after (⟨k.attempts, .kmsg, 0⟩ :: ⟨k.attempts, .properties, 0⟩ ::
            (contextNodes k.attempts t ++ k.nodes))).sysctlRegister,
          .ok
            { load := k.attempts
              devfsLckGrp := true
              binderLock := true
              devfsOsmallocTag := true
              devfsMajor := some major
              contexts := t
              propHandle := some ⟨k.attempts, .properties, 0⟩
              kmsgHandle := some ⟨k.attempts, .kmsg, 0⟩ })

namespace Kext

variable {k k' : Kernel} {a : Answers}

/-- The label `fail_cdevsw` gives back everything but the nodes. -/
theorem failCdevsw_granted {i : Nat} (hi : k.cdevsw[i]? = some none) (nodes : List DevNode) :
    failCdevsw (k.granted (k.cdevsw.set i (some .binder)) nodes) i =
      { k.tried with nodes := nodes } := by
  have hback : (k.granted (k.cdevsw.set i (some .binder)) nodes).cdevswRemove i .binder =
      k.granted k.cdevsw nodes := Kernel.cdevswRemove_added (k := k.granted k.cdevsw nodes) hi
  rw [failCdevsw, hback]
  rfl

theorem publishContexts_granted (k : Kernel) (table : List (Option Switch)) (nodes : List DevNode)
    (load : Nat) (t : NodeTable) : (k.granted table nodes).publishContexts load t.returned =
      k.granted table (contextNodes load t ++ nodes) := rfl

/-- The end of a start, once it has its major. -/
theorem startDevices_started (hfresh : k.Fresh) (hgets : a.GetsMajor k) {i : Nat}
    (hi : k.cdevsw[i]? = some none) :
    Started a k (startDevices a (k.granted (k.cdevsw.set i (some .binder)) k.nodes)
      { load := k.attempts, devfsLckGrp := true, binderLock := true, devfsOsmallocTag := true }
      i) := by
  unfold startDevices
  split
  · rename_i t error ht
    rw [publishContexts_granted, failCdevsw_granted hi]
    exact .contexts t error hgets ht
  · rename_i t ht
    have hnew : (⟨k.attempts, .properties, 0⟩ : DevNode) ∉
        contextNodes k.attempts t ++ k.nodes := by
      intro hmem
      rcases List.mem_append.mp hmem with hmem | hmem
      · simp [contextNodes] at hmem
      · exact Nat.lt_irrefl _ (hfresh _ hmem)
    simp only [publishContexts_granted]
    rcases androidDevicesInit_cases a
      (k.granted (k.cdevsw.set i (some .binder)) (contextNodes k.attempts t ++ k.nodes))
      { load := k.attempts, devfsLckGrp := true, binderLock := true, devfsOsmallocTag := true,
        devfsMajor := some i, contexts := t } rfl hnew with
      ⟨after, x', hleft, heq⟩ | ⟨between, after, hprop, hkmsg, heq⟩
    · rw [heq]
      exact .android t hgets ht _ after (.mk _ i hi) hleft
    · rw [heq]
      exact .loaded t hgets ht i hi between after hprop hkmsg

/-- **`devfs_start`.** -/
theorem devfsStart_started (a : Answers) (hfresh : k.Fresh) : Started a k (devfsStart a k) := by
  unfold devfsStart
  simp only
  split
  · exact .early _ (by simp) (by simp) fun h => by simp_all [Answers.GetsMajor]
  split
  · exact .early _ (by simp) (by simp) fun h => by simp_all [Answers.GetsMajor]
  split
  · exact .early _ (by simp) (by simp) fun h => by simp_all [Answers.GetsMajor]
  split
  · exact .early _ (by simp) (by simp) fun h => by simp_all [Answers.GetsMajor]
  rename_i hattr hgrp hmtx htag
  simp only [Bool.not_eq_false] at hattr hgrp hmtx htag
  change Started a k (startSwitch a (k.granted k.cdevsw k.nodes) _)
  unfold startSwitch
  rcases (k.granted k.cdevsw k.nodes).cdevswAdd_cases a.binderSlot .binder with
    ⟨heq, hnone⟩ | ⟨i, hslot, hi, heq⟩
  · rw [heq]
    apply Started.early _ (by simp) (by simp)
    intro ⟨_, _, _, _, j, hslot, hj⟩
    exact hnone j hslot hj
  · rw [heq]
    exact startDevices_started hfresh ⟨hattr, hgrp, hmtx, htag, i, hslot, hi⟩ hi

/-- The nodes that `binder_devices_init` makes in this attempt. -/
def madeNodes (a : Answers) (k : Kernel) : List DevNode :=
  contextNodes k.attempts (NodeTable.devicesInit a.contexts).1

/-- There are some exactly if the first context gets its node. -/
theorem madeNodes_eq_nil (a : Answers) (k : Kernel) :
    madeNodes a k = [] ↔ a.contexts 0 = false := by
  cases hok : a.contexts 0 with
  | false => simpa [madeNodes, contextNodes] using (NodeTable.devicesInit_refused hok).1
  | true => simpa [madeNodes, contextNodes] using NodeTable.devicesInit_granted hok

/-- **A failed start is clean exactly if it has made no node.**  Up to the first
node everything is given back.  After that `fail_cdevsw` gives back everything but the
nodes, of which there are some; and `fail_android` gives back nothing: the kernel keeps
the lock group, the lock, the tag, the binder major, the nodes and perhaps the major of
the properties. -/
theorem failed_start_clean_iff (a : Answers) (hfresh : k.Fresh) {f : StartFailure}
    (hfail : devfsStart a k = (k', .error f)) :
    (k' = k.tried ↔ ¬ (a.GetsMajor k ∧ a.contexts 0 = true)) ∧
    (a.contexts 0 = true → madeNodes a k ≠ []) ∧
    (∀ error, f = .binderDevices error →
      k' = { k.tried with nodes := madeNodes a k ++ k.nodes }) ∧
    ∀ error, f = .androidDevices error → madeNodes a k ≠ [] ∧
      ∃ between after, Registers .binder k.cdevsw between ∧ AndroidLeft between after ∧
        k' = k.granted after (madeNodes a k ++ k.nodes) := by
  have hmade := madeNodes_eq_nil a k
  have hsome : a.contexts 0 = true → madeNodes a k ≠ [] := by
    intro hok hnil
    rw [hmade.mp hnil] at hok
    cases hok
  have hstarted := devfsStart_started a hfresh
  rw [hfail] at hstarted
  refine ⟨?_, hsome, ?_⟩
  · cases hstarted with
    | early _ _ _ h =>
        constructor
        · intro _ hgets
          exact h hgets.1
        · intro _
          rfl
    | contexts t error h ht =>
        have hnodes : contextNodes k.attempts t = madeNodes a k := by rw [madeNodes, ht]
        rw [hnodes]
        constructor
        · intro heq hgets
          have hsame : madeNodes a k ++ k.nodes = k.nodes := congrArg Kernel.nodes heq
          exact hsome hgets.2 (by simpa using hsame)
        · intro hnone
          have hzero : a.contexts 0 = false := by simpa using fun hok => hnone ⟨h, hok⟩
          simp [hmade.mpr hzero, Kernel.tried]
    | android t h ht between after hadds hleft =>
        constructor
        · intro heq
          have hgrps : k.lckGrps + 1 = k.lckGrps := congrArg Kernel.lckGrps heq
          omega
        · intro hnone
          exact absurd ⟨h, NodeTable.devicesInit_first ht⟩ hnone
  · cases hstarted with
    | early _ hf hf' _ =>
        exact ⟨fun error he => absurd he (hf' error), fun error he => absurd he (hf error)⟩
    | contexts t error h ht =>
        constructor
        · intro error' _
          rw [madeNodes, ht]
        · intro error' he
          cases he
    | android t h ht between after hadds hleft =>
        have hgranted := hsome (NodeTable.devicesInit_first ht)
        constructor
        · intro error he
          cases he
        · intro error _
          refine ⟨hgranted, between, after, hadds, hleft, ?_⟩
          rw [madeNodes, ht]

/-- A kernel with four majors to give. -/
def fourMajors : Kernel := { cdevsw := [none, none, none, none] }

/-- Refused the lock, the start is clean; refused the third context, it keeps two
nodes and nothing else; refused the major of the properties, it keeps everything. -/
theorem failed_start_clean_four :
    (devfsStart { lckMtx := false, binderSlot := some 0, propSlot := some 1, kmsgSlot := some 2 }
      fourMajors).1 = fourMajors.tried ∧
    (devfsStart { binderSlot := some 0, contexts := (· < 2), propSlot := none, kmsgSlot := none }
      fourMajors).1 = { fourMajors.tried with nodes := [⟨0, .binder, 2⟩, ⟨0, .binder, 1⟩] } ∧
    ∃ between after, Registers .binder fourMajors.cdevsw between ∧ AndroidLeft between after ∧
      (devfsStart { binderSlot := some 0, propSlot := none, kmsgSlot := none } fourMajors).1 =
        fourMajors.granted after (madeNodes
          { binderSlot := some 0, propSlot := none, kmsgSlot := none } fourMajors) := by
  have hfresh : fourMajors.Fresh := fun n hn => by cases hn
  refine ⟨?_, ?_, ?_⟩
  · have hfail := failed_start_clean_iff
      { lckMtx := false, binderSlot := some 0, propSlot := some 1, kmsgSlot := some 2 } hfresh rfl
    apply hfail.1.mpr
    intro hmade
    have hlock := hmade.1.2.2.1
    cases hlock
  · have hfail := failed_start_clean_iff
      { binderSlot := some 0, contexts := (· < 2), propSlot := none, kmsgSlot := none } hfresh rfl
    exact hfail.2.2.1 .enomem rfl
  · have hfail := failed_start_clean_iff
      { binderSlot := some 0, propSlot := none, kmsgSlot := none } hfresh rfl
    obtain ⟨-, between, after, hbinder, hleft, heq⟩ := hfail.2.2.2 .enomem rfl
    exact ⟨between, after, hbinder, hleft, heq⟩

/-! ## One unload -/

theorem foldl_devfsRemove (load : Nat) (handles : List Nat) (k : Kernel) :
    handles.foldl (fun k handle => k.devfsRemove ⟨load, .binder, handle⟩) k =
      { k with nodes := k.nodes.filter fun n => ∀ h ∈ handles, n ≠ ⟨load, .binder, h⟩ } := by
  induction handles generalizing k with
  | nil => simp
  | cons handle handles ih =>
      rw [List.foldl_cons, ih]
      simp [Kernel.devfsRemove, List.filter_filter, Bool.and_comm]

/-- The node is one that `devfs_stop` removes. -/
def Withdraws (x : Kext) (n : DevNode) : Prop :=
  some n = x.propHandle ∨ some n = x.kmsgHandle ∨
    ∃ h ∈ x.contexts.devicesFini.removed, n = ⟨x.load, .binder, h⟩

theorem mem_devfsRemove {n n' : DevNode} :
    n' ∈ (k.devfsRemove n).nodes ↔ n' ∈ k.nodes ∧ n' ≠ n := by
  simp [Kernel.devfsRemove]

/-- The end of the Android devices takes their two nodes and no other. -/
theorem androidDevicesFini_eq (k : Kernel) (x : Kext) : ∃ nodes : List DevNode,
    (∀ n, n ∈ nodes ↔ n ∈ k.nodes ∧ some n ≠ x.propHandle ∧ some n ≠ x.kmsgHandle) ∧
      androidDevicesFini k x =
        ({ k with nodes := nodes }, { x with propHandle := none, kmsgHandle := none }) := by
  unfold androidDevicesFini
  cases hprop : x.propHandle with
  | none =>
      cases hkmsg : x.kmsgHandle with
      | none =>
          refine ⟨k.nodes, by simp, ?_⟩
          cases x
          simp_all
      | some kmsg =>
          exact ⟨(k.devfsRemove kmsg).nodes, by simp [mem_devfsRemove],
            by simp [hprop, hkmsg, Kernel.devfsRemove]⟩
  | some prop =>
      cases hkmsg : x.kmsgHandle with
      | none =>
          exact ⟨(k.devfsRemove prop).nodes, by simp [mem_devfsRemove],
            by simp [Kernel.devfsRemove]⟩
      | some kmsg =>
          exact ⟨((k.devfsRemove prop).devfsRemove kmsg).nodes,
            by simp [mem_devfsRemove, and_assoc],
            by simp [Kernel.devfsRemove]⟩

/-- **`devfs_stop`**, for an extension that has everything. -/
theorem devfsStop_eq (k : Kernel) {x : Kext} {major : Nat} (hgrp : x.devfsLckGrp = true)
    (hlock : x.binderLock = true) (htag : x.devfsOsmallocTag = true)
    (hmajor : x.devfsMajor = some major) (hentry : k.cdevsw[major]? = some (some .binder)) :
    ∃ nodes : List DevNode, (∀ n, n ∈ nodes ↔ n ∈ k.nodes ∧ ¬ x.Withdraws n) ∧
      devfsStop k x =
        { k with
          cdevsw := k.cdevsw.set major none
          lckGrps := k.lckGrps - 1
          lckMtxs := k.lckMtxs - 1
          tags := k.tags - 1
          oids := k.sysctlUnregister.oids
          nodes := nodes } := by
  obtain ⟨between, hbetween, heq⟩ := androidDevicesFini_eq k.sysctlUnregister x
  refine ⟨between.filter fun n => ∀ h ∈ x.contexts.devicesFini.removed, n ≠ ⟨x.load, .binder, h⟩,
    ?_, ?_⟩
  · intro n
    rw [List.mem_filter, hbetween]
    simp only [decide_eq_true_eq, Withdraws, not_or, not_exists, not_and, ne_eq, and_assoc]
    rfl
  · unfold devfsStop
    simp only [heq, binderDevicesFini, foldl_devfsRemove, hmajor, hgrp, hlock, htag, if_true]
    have hours : k.sysctlUnregister.cdevsw[major]? = some (some .binder) := hentry
    simp only [Kernel.cdevswRemove]
    rw [if_pos hours]
    rfl

end Kext

/-! ## Whole lifetimes -/

/-- What the extension has while it is loaded. -/
structure Loaded (ok : NodeTable → Nat → Prop) (m : Machine) (x : Kext) : Prop where
  group : x.devfsLckGrp = true
  lock : x.binderLock = true
  tag : x.devfsOsmallocTag = true
  major : ∃ i, x.devfsMajor = some i ∧ m.kernel.cdevsw[i]? = some (some .binder)
  prop : x.propHandle = some ⟨x.load, .properties, 0⟩
  kmsg : x.kmsgHandle = some ⟨x.load, .kmsg, 0⟩
  load : x.load < m.kernel.attempts
  contexts : Adding ok x.contexts m.inFlight
  nodes : ∀ n ∈ m.kernel.nodes, n.load = x.load →
    some n = x.propHandle ∨ some n = x.kmsgHandle ∨
      n.device = .binder ∧ n.handle ∈ x.contexts.returned

namespace Machine

/-- Whether the extension is loaded, as a number. -/
def up (m : Machine) : Nat := if m.kext.isSome then 1 else 0

/-- The majors that belong to a device. -/
def majors (k : Kernel) (sw : Switch) : Nat := k.cdevsw.count (some sw)

/-- What the kernel holds for the extension beyond what it held at boot. -/
structure Holdings (boot : Kernel) (m : Machine) : Prop where
  groups : m.kernel.lckGrps = boot.lckGrps + m.stuck + m.up
  mutexes : m.kernel.lckMtxs = boot.lckMtxs + m.stuck + m.up
  tags : m.kernel.tags = boot.tags + m.stuck + m.up
  binder : majors m.kernel .binder = majors boot .binder + m.stuck + m.up
  kmsg : majors m.kernel .kmsg = majors boot .kmsg + m.loads
  le_properties : majors boot .properties + m.loads ≤ majors m.kernel .properties
  properties_le : majors m.kernel .properties ≤ majors boot .properties + m.loads + m.stuck
  oids : m.kext = none → m.kernel.oids = boot.oids
  slots : m.kernel.cdevsw.length = boot.cdevsw.length

end Machine

/-- Everything that lasts through a lifetime. -/
structure Kept (ok : NodeTable → Nat → Prop) (boot : Kernel) (m : Machine) : Prop where
  holdings : m.Holdings boot
  fresh : m.kernel.Fresh
  loaded : ∀ x, m.kext = some x → Loaded ok m x ∧ m.kernel.sysctlUnregister.oids = boot.oids
  quiet : m.kext = none → m.inFlight = []

section

variable {ok : NodeTable → Nat → Prop} {boot : Kernel} {m : Machine}

theorem Kext.AndroidLeft.length {before after : List (Option Switch)}
    (h : Kext.AndroidLeft before after) : after.length = before.length := by
  cases h with
  | nothing => rfl
  | properties h => exact h.length

theorem Kext.AndroidLeft.count {before after : List (Option Switch)}
    (h : Kext.AndroidLeft before after) (sw : Switch) (hsw : sw ≠ .properties) :
    after.count (some sw) = before.count (some sw) := by
  cases h with
  | nothing => rfl
  | properties h => simp [h.count, hsw.symm]

theorem Kext.AndroidLeft.count_le {before after : List (Option Switch)}
    (h : Kext.AndroidLeft before after) :
    before.count (some .properties) ≤ after.count (some .properties) ∧
      after.count (some .properties) ≤ before.count (some .properties) + 1 := by
  cases h with
  | nothing => omega
  | properties h =>
      have hcount := h.count .properties
      simp only [if_true] at hcount
      omega

/-- The nodes of an attempt are no later than it. -/
theorem Kernel.Fresh.contextNodes {k : Kernel} (h : k.Fresh) (t : NodeTable) :
    ∀ n ∈ contextNodes k.attempts t ++ k.nodes, n.load < k.attempts + 1 := by
  intro n hn
  rcases List.mem_append.mp hn with hn | hn
  · obtain ⟨handle, -, rfl⟩ := List.mem_map.mp hn
    exact Nat.lt_succ_self _
  · exact Nat.lt_succ_of_lt (h n hn)

/-- An attempt that leaves at most nodes. -/
theorem Kept.failed (h : Kept ok boot m) (hidle : m.kext = none) (nodes : List DevNode)
    (hnodes : ∀ n ∈ nodes, n.load < m.kernel.attempts + 1) :
    Kept ok boot { m with kernel := { m.kernel.tried with nodes := nodes } } := by
  obtain ⟨hgroups, hmutexes, htags, hbinder, hkmsg, hle, hge, hoids, hslots⟩ := h.holdings
  refine ⟨⟨hgroups, hmutexes, htags, hbinder, hkmsg, hle, hge, hoids, hslots⟩, hnodes, ?_, h.quiet⟩
  intro x hx
  rw [hidle] at hx
  cases hx

/-- An attempt that fails in `android_devices_init`. -/
theorem Kept.stuck (h : Kept ok boot m) (hidle : m.kext = none) (t : NodeTable)
    {between after : List (Option Switch)} (hadds : Registers .binder m.kernel.cdevsw between)
    (hleft : Kext.AndroidLeft between after) :
    Kept ok boot
      { m with
        kernel := m.kernel.granted after (contextNodes m.kernel.attempts t ++ m.kernel.nodes)
        stuck := m.stuck + 1 } := by
  obtain ⟨hgroups, hmutexes, htags, hbinder, hkmsg, hle, hge, hoids, hslots⟩ := h.holdings
  have hup (k : Kernel) (n : Nat) : ({ m with kernel := k, stuck := n } : Machine).up = m.up := rfl
  have hbinder' := hadds.count .binder
  have hkmsg' := hadds.count .kmsg
  have hprop' := hadds.count .properties
  have hleft' := hleft.count_le
  have hleftBinder := hleft.count .binder (by decide)
  have hleftKmsg := hleft.count .kmsg (by decide)
  simp only [if_true, reduceCtorEq, if_false] at hbinder' hkmsg' hprop'
  refine ⟨⟨?_, ?_, ?_, ?_, ?_, ?_, ?_, hoids, ?_⟩, h.fresh.contextNodes t, ?_, h.quiet⟩
  · simp only [Kernel.granted, hup]
    omega
  · simp only [Kernel.granted, hup]
    omega
  · simp only [Kernel.granted, hup]
    omega
  · simp only [Machine.majors, Kernel.granted, hup] at hbinder ⊢
    omega
  · simp only [Machine.majors, Kernel.granted] at hkmsg ⊢
    omega
  · simp only [Machine.majors, Kernel.granted] at hle ⊢
    omega
  · simp only [Machine.majors, Kernel.granted] at hge ⊢
    omega
  · simp only [Kernel.granted, hleft.length, hadds.length, hslots]
  · intro x hx
    rw [hidle] at hx
    cases hx

/-- An attempt that succeeds. -/
theorem Kept.load (h : Kept ok boot m) (hidle : m.kext = none) {oks : Nat → Bool} {t : NodeTable}
    (ht : NodeTable.devicesInit oks = (t, none)) {major : Nat}
    (hmajor : m.kernel.cdevsw[major]? = some none) {between after : List (Option Switch)}
    (hprop : Registers .properties (m.kernel.cdevsw.set major (some .binder)) between)
    (hkmsg : Registers .kmsg between after) :
    Kept ok boot
      { m with
        kernel := (m.kernel.granted after (⟨m.kernel.attempts, .kmsg, 0⟩ ::
          ⟨m.kernel.attempts, .properties, 0⟩ ::
            (contextNodes m.kernel.attempts t ++ m.kernel.nodes))).sysctlRegister
        kext := some
          { load := m.kernel.attempts
            devfsLckGrp := true
            binderLock := true
            devfsOsmallocTag := true
            devfsMajor := some major
            contexts := t
            propHandle := some ⟨m.kernel.attempts, .properties, 0⟩
            kmsgHandle := some ⟨m.kernel.attempts, .kmsg, 0⟩ }
        loads := m.loads + 1 } := by
  obtain ⟨hgroups, hmutexes, htags, hbinder, hkmsgs, hle, hge, hoids, hslots⟩ := h.holdings
  have hup : m.up = 0 := by simp [Machine.up, hidle]
  have hadds : Registers .binder m.kernel.cdevsw (m.kernel.cdevsw.set major (some .binder)) :=
    .mk _ major hmajor
  have hcount (sw : Switch) : after.count (some sw) = m.kernel.cdevsw.count (some sw) +
      (if .binder = sw then 1 else 0) + (if .properties = sw then 1 else 0) +
        (if .kmsg = sw then 1 else 0) := by
    rw [hkmsg.count, hprop.count, hadds.count]
  have hentry : after[major]? = some (some .binder) := by
    obtain ⟨hlt, -⟩ := List.getElem?_eq_some_iff.mp hmajor
    exact hkmsg.keeps (hprop.keeps (by simp [hlt]))
  have hnodes : ∀ n ∈ (⟨m.kernel.attempts, .kmsg, 0⟩ : DevNode) ::
      ⟨m.kernel.attempts, .properties, 0⟩ :: (contextNodes m.kernel.attempts t ++ m.kernel.nodes),
      n.load = m.kernel.attempts → some n = some (⟨m.kernel.attempts, .properties, 0⟩ : DevNode) ∨
        some n = some (⟨m.kernel.attempts, .kmsg, 0⟩ : DevNode) ∨
          n.device = .binder ∧ n.handle ∈ t.returned := by
    intro n hn hload
    rcases List.mem_cons.mp hn with rfl | hn
    · exact .inr (.inl rfl)
    rcases List.mem_cons.mp hn with rfl | hn
    · exact .inl rfl
    rcases List.mem_append.mp hn with hn | hn
    · obtain ⟨handle, hhandle, rfl⟩ := List.mem_map.mp hn
      exact .inr (.inr ⟨rfl, hhandle⟩)
    · exact absurd (h.fresh n hn) (by omega)
  have hbinder' := hcount .binder
  have hkmsg' := hcount .kmsg
  have hprop' := hcount .properties
  simp only [if_true, reduceCtorEq, if_false] at hbinder' hkmsg' hprop'
  simp only [Machine.majors] at hbinder hkmsgs hle hge
  refine ⟨⟨?_, ?_, ?_, ?_, ?_, ?_, ?_, fun hnone => (by cases hnone), ?_⟩, ?_, ?_,
    fun hnone => (by cases hnone)⟩
  · simp only [Kernel.sysctlRegister, Kernel.granted, Machine.up, Option.isSome_some, if_true]
    omega
  · simp only [Kernel.sysctlRegister, Kernel.granted, Machine.up, Option.isSome_some, if_true]
    omega
  · simp only [Kernel.sysctlRegister, Kernel.granted, Machine.up, Option.isSome_some, if_true]
    omega
  · simp only [Kernel.sysctlRegister, Kernel.granted, Machine.up, Option.isSome_some, if_true,
      Machine.majors]
    omega
  · simp only [Kernel.sysctlRegister, Kernel.granted, Machine.majors]
    omega
  · simp only [Kernel.sysctlRegister, Kernel.granted, Machine.majors]
    omega
  · simp only [Kernel.sysctlRegister, Kernel.granted, Machine.majors]
    omega
  · simp only [Kernel.sysctlRegister, Kernel.granted, hkmsg.length, hprop.length, hadds.length,
      hslots]
  · intro n hn
    rcases List.mem_cons.mp hn with rfl | hn
    · exact Nat.lt_succ_self _
    rcases List.mem_cons.mp hn with rfl | hn
    · exact Nat.lt_succ_self _
    · exact h.fresh.contextNodes t n hn
  · intro x hx
    cases hx
    constructor
    · exact
        { group := rfl
          lock := rfl
          tag := rfl
          major := ⟨major, rfl, hentry⟩
          prop := rfl
          kmsg := rfl
          load := Nat.lt_succ_self _
          contexts := by
            rw [h.quiet hidle]
            exact .start oks t ht
          nodes := hnodes }
    · rw [Kernel.unregister_register]
      exact hoids hidle

/-- **Step:** an attempt to load. -/
theorem Kept.start (h : Kept ok boot m) (hidle : m.kext = none) (a : Answers) :
    Kept ok boot (m.start a) := by
  have hstarted := Kext.devfsStart_started a h.fresh
  unfold Machine.start
  generalize Kext.devfsStart a m.kernel = result at hstarted
  cases hstarted with
  | early f hf _ _ =>
      have hleft := h.failed hidle m.kernel.nodes fun n hn => Nat.lt_succ_of_lt (h.fresh n hn)
      cases f with
      | androidDevices error => exact absurd rfl (hf error)
      | lckGrpAttr => exact hleft
      | lckGrp => exact hleft
      | lckMtx => exact hleft
      | tag => exact hleft
      | cdevsw => exact hleft
      | binderDevices error => exact hleft
  | contexts t error _ ht => exact h.failed hidle _ (h.fresh.contextNodes t)
  | android t _ ht between after hadds hleft => exact h.stuck hidle t hadds hleft
  | loaded t _ ht major hmajor between after hprop hkmsg =>
      exact h.load hidle ht hmajor hprop hkmsg

/-- **Step:** an unload. -/
theorem Kept.stop (h : Kept ok boot m) {x : Kext} (hx : m.kext = some x)
    (hquiet : m.inFlight = []) : Kept ok boot (m.stop x) := by
  obtain ⟨hgroups, hmutexes, htags, hbinder, hkmsg, hle, hge, hoids, hslots⟩ := h.holdings
  obtain ⟨hloaded, hregistered⟩ := h.loaded x hx
  obtain ⟨i, hmajor, hentry⟩ := hloaded.major
  obtain ⟨nodes, hnodes, heq⟩ := Kext.devfsStop_eq m.kernel hloaded.group hloaded.lock hloaded.tag
    hmajor hentry
  have hup : m.up = 1 := by simp [Machine.up, hx]
  have hdown : (m.stop x).up = 0 := rfl
  have hstuck : (m.stop x).stuck = m.stuck := rfl
  have hloads : (m.stop x).loads = m.loads := rfl
  have hbinder' := count_removed hentry .binder
  have hkmsg' := count_removed hentry .kmsg
  have hprop' := count_removed hentry .properties
  simp only [if_true, reduceCtorEq, if_false] at hbinder' hkmsg' hprop'
  simp only [Machine.majors] at hbinder hkmsg hle hge
  have hkernel : (m.stop x).kernel = _ := heq
  refine ⟨⟨?_, ?_, ?_, ?_, ?_, ?_, ?_, ?_, ?_⟩, ?_, fun x' hx' => (by cases hx'), fun _ => hquiet⟩
  · rw [hkernel]
    simp only
    omega
  · rw [hkernel]
    simp only
    omega
  · rw [hkernel]
    simp only
    omega
  · rw [hkernel]
    simp only [Machine.majors]
    omega
  · rw [hkernel]
    simp only [Machine.majors]
    omega
  · rw [hkernel]
    simp only [Machine.majors]
    omega
  · rw [hkernel]
    simp only [Machine.majors]
    omega
  · intro _
    rw [hkernel]
    exact hregistered
  · rw [hkernel]
    simp only [List.length_set, hslots]
  · rw [hkernel]
    intro n hn
    exact h.fresh n ((hnodes n).mp hn).1

/-- **Step:** a part of a request to `binder-control`. -/
theorem Kept.request (h : Kept ok boot m) {x : Kext} (hx : m.kext = some x) {t : NodeTable}
    {inFlight : List Nat} (hadding : Adding ok t inFlight) {k : Kernel}
    (hkernel : k = { m.kernel with nodes := k.nodes })
    (hnodes : ∀ n ∈ k.nodes, n ∈ m.kernel.nodes ∨
      n.load = x.load ∧ n.device = .binder ∧ n.handle ∈ t.returned)
    (hreturned : ∀ handle ∈ x.contexts.returned, handle ∈ t.returned) :
    Kept ok boot
      { m with kernel := k, kext := some { x with contexts := t }, inFlight := inFlight } := by
  obtain ⟨hgroups, hmutexes, htags, hbinder, hkmsg, hle, hge, -, hslots⟩ := h.holdings
  obtain ⟨hloaded, hregistered⟩ := h.loaded x hx
  have hup : ({ m with kernel := k, kext := some { x with contexts := t }, inFlight := inFlight } :
      Machine).up = m.up := by simp [Machine.up, hx]
  refine ⟨⟨?_, ?_, ?_, ?_, ?_, ?_, ?_, fun hnone => (by cases hnone), ?_⟩, ?_, ?_,
    fun hnone => (by cases hnone)⟩
  · rw [hup, hkernel]
    exact hgroups
  · rw [hup, hkernel]
    exact hmutexes
  · rw [hup, hkernel]
    exact htags
  · rw [hup, hkernel]
    exact hbinder
  · rw [hkernel]
    exact hkmsg
  · rw [hkernel]
    exact hle
  · rw [hkernel]
    exact hge
  · rw [hkernel]
    exact hslots
  · intro n hn
    rw [hkernel]
    rcases hnodes n hn with hold | ⟨hload, -, -⟩
    · exact h.fresh n hold
    · rw [hload]
      exact hloaded.load
  · intro x' hx'
    cases hx'
    constructor
    · exact
        { hloaded with
          major := by
            rw [hkernel]
            exact hloaded.major
          load := by
            rw [hkernel]
            exact hloaded.load
          contexts := hadding
          nodes := by
            intro n hn hload
            rcases hnodes n hn with hold | ⟨-, hnew⟩
            · rcases hloaded.nodes n hold hload with hprop | hkmsg | ⟨hdevice, hhandle⟩
              · exact .inl hprop
              · exact .inr (.inl hkmsg)
              · exact .inr (.inr ⟨hdevice, hreturned n.handle hhandle⟩)
            · exact .inr (.inr hnew) }
    · rw [hkernel]
      exact hregistered

/-- **Run.** -/
theorem Lifetime.kept (h : Lifetime ok boot m) (hboot : boot.Fresh) : Kept ok boot m := by
  induction h with
  | boot =>
      refine ⟨⟨rfl, rfl, rfl, rfl, rfl, Nat.le_refl _, Nat.le_refl _, fun _ => rfl, rfl⟩, hboot,
        fun x hx => (by cases hx), fun _ => rfl⟩
  | start _ hidle a ih => exact ih.start hidle a
  | refused _ hx raw t error hadd ih =>
      have hadding := (ih.loaded _ hx).1.contexts.refused raw error hadd
      rw [NodeTable.ctlAddReserve_eq_error hadd] at hadding ⊢
      exact ih.request hx hadding rfl (fun n hn => .inl hn) fun _ hhandle => hhandle
  | reserved _ hx raw t i hadd ih =>
      have hadding := (ih.loaded _ hx).1.contexts.reserved raw i hadd
      obtain ⟨-, -, -, rfl⟩ := NodeTable.ctlAddReserve_eq_ok hadd
      exact ih.request hx hadding rfl (fun n hn => .inl hn) fun _ hhandle => hhandle
  | @published m x _ hx i hi made hok ih =>
      have hadding := (ih.loaded _ hx).1.contexts.published i hi made hok
      cases made with
      | false => exact ih.request hx hadding rfl (fun n hn => .inl hn) fun _ hhandle => hhandle
      | true =>
          apply ih.request hx hadding
          · rfl
          · intro n hn
            rcases List.mem_cons.mp hn with rfl | hn
            · exact .inr ⟨rfl, rfl, List.mem_cons_self⟩
            · exact .inl hn
          · exact fun _ hhandle => List.mem_cons_of_mem _ hhandle
  | stop _ hx hquiet ih => exact ih.stop hx hquiet

/-- **What the kernel holds.**  At every moment of every lifetime the lock
groups, locks, tags and binder majors beyond those at boot are one of each while
the extension is loaded, and one of each for every start that failed in
`android_devices_init`; every load has left its majors of `kmsg` and of
`__properties__`, and the failed starts at most one of the latter each; and no
`sysctl` oid is left while the extension is not loaded. -/
theorem holdings_of_lifetime (h : Lifetime ok boot m) (hboot : boot.Fresh) : m.Holdings boot :=
  (h.kept hboot).holdings

/-- The extension, loaded where there are four majors. -/
def loadedMachine : Machine :=
  Machine.start { kernel := Kext.fourMajors }
    { binderSlot := some 0, propSlot := some 1, kmsgSlot := some 2 }

def loadedKext : Kext := loadedMachine.kext.getD { load := 0 }

/-- It is unloaded, and the next attempt gets no major for `kmsg`. -/
def wornMachine : Machine :=
  (loadedMachine.stop loadedKext).start
    { binderSlot := some 0, propSlot := some 3, kmsgSlot := none }

theorem loadedMachine_lifetime : Lifetime NodeTable.SparesLast Kext.fourMajors loadedMachine :=
  .start .boot rfl _

theorem wornMachine_lifetime : Lifetime NodeTable.SparesLast Kext.fourMajors wornMachine :=
  .start (.stop loadedMachine_lifetime rfl rfl) rfl _

theorem fourMajors_fresh : Kext.fourMajors.Fresh := fun n hn => by cases hn

theorem holdings_of_worn : wornMachine.Holdings Kext.fourMajors ∧ wornMachine.loads = 1 ∧
    wornMachine.stuck = 1 ∧ wornMachine.kernel.cdevsw =
      [some .binder, some .properties, some .kmsg, some .properties] :=
  ⟨holdings_of_lifetime wornMachine_lifetime fourMajors_fresh, by decide +kernel,
    by decide +kernel, by decide +kernel⟩

theorem count_three_le (table : List (Option Switch)) :
    table.count (some .binder) + table.count (some .properties) + table.count (some .kmsg) ≤
      table.length := by
  induction table with
  | nil => simp
  | cons entry table ih =>
      simp only [List.count_cons, List.length_cons]
      cases entry with
      | none =>
          simp
          omega
      | some sw =>
          cases sw
          all_goals
            simp
            omega

/-- **The majors run out.**  Loads leave two majors each and starts that fail in
`android_devices_init` at least one, so with a table of `n` majors there are at
most `n / 2` loads in a lifetime. -/
theorem loads_bounded (h : Lifetime ok boot m) (hboot : boot.Fresh) :
    2 * m.loads + m.stuck + m.up ≤ boot.cdevsw.length := by
  obtain ⟨-, -, -, hbinder, hkmsg, hle, -, -, hslots⟩ := (h.kept hboot).holdings
  have hall := count_three_le m.kernel.cdevsw
  simp only [Machine.majors] at hbinder hkmsg hle
  omega

theorem loads_bounded_worn :
    2 * wornMachine.loads + wornMachine.stuck + wornMachine.up ≤ Kext.fourMajors.cdevsw.length :=
  loads_bounded wornMachine_lifetime fourMajors_fresh

/-- **An unload withdraws exactly the nodes of its load**, if no handle was
stored over that of `binder-control` in the last entry. -/
theorem stop_withdraws (h : Lifetime NodeTable.SparesLast boot m) (hboot : boot.Fresh) {x : Kext}
    (hx : m.kext = some x) (n : DevNode) :
    n ∈ (m.stop x).kernel.nodes ↔ n ∈ m.kernel.nodes ∧ n.load ≠ x.load := by
  have hloaded := ((h.kept hboot).loaded x hx).1
  obtain ⟨i, hmajor, hentry⟩ := hloaded.major
  obtain ⟨nodes, hnodes, heq⟩ := Kext.devfsStop_eq m.kernel hloaded.group hloaded.lock hloaded.tag
    hmajor hentry
  have hkernel : (m.stop x).kernel.nodes = nodes := congrArg Kernel.nodes heq
  rw [hkernel, hnodes]
  constructor
  · intro ⟨hmem, hstays⟩
    refine ⟨hmem, fun hload => hstays ?_⟩
    rcases hloaded.nodes n hmem hload with hprop | hkmsg | ⟨hdevice, hhandle⟩
    · exact .inl hprop
    · exact .inr (.inl hkmsg)
    · -- every handle that was returned is removed
      have hcount := hloaded.contexts.holds.fini hhandle
      have hremoved : n.handle ∈ x.contexts.devicesFini.removed :=
        List.count_pos_iff.mp (by omega)
      refine .inr (.inr ⟨n.handle, hremoved, ?_⟩)
      rw [← hload, ← hdevice]
  · intro ⟨hmem, hload⟩
    refine ⟨hmem, ?_⟩
    intro hwithdraws
    rcases hwithdraws with hprop | hkmsg | ⟨handle, -, rfl⟩
    · rw [hloaded.prop] at hprop
      cases hprop
      exact hload rfl
    · rw [hloaded.kmsg] at hkmsg
      cases hkmsg
      exact hload rfl
    · exact hload rfl

theorem stop_withdraws_control : (⟨0, .binder, 4⟩ : DevNode) ∈ loadedMachine.kernel.nodes ∧
    (⟨0, .binder, 4⟩ : DevNode) ∉ (loadedMachine.stop loadedKext).kernel.nodes := by
  constructor
  · decide +kernel
  · intro hmem
    have hload := (stop_withdraws loadedMachine_lifetime fourMajors_fresh rfl _).mp hmem
    exact hload.2 rfl

end

end Binder
