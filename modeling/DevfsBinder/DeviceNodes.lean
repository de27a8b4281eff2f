import DevfsBinder.WireFormat
import Mathlib.Data.List.Nodup
import Mathlib.Logic.Function.Basic

/-!
# The device nodes

`binder_dev.c`: the table of contexts and the `devfs` nodes behind it.  Three
contexts are there from the start, `binderfs` mints more at the request of its
clients, and unloading withdraws every node whose handle the table still holds.

The last entry of the table serves two purposes: the handle of `binder-control`
is kept in it, although it is not in use, and it is the last one `binderfs` may
give to a new device.  Once it does, the handle of `binder-control` is
overwritten and its node stays behind.  As long as another entry is free for
every request, every node that was published is withdrawn once
(`nodes_withdrawn`).

A request drops the driver lock while `devfs` makes the node, so requests are in
two parts here and may be interleaved.
-/

namespace Binder

open LittleEndian

/-- `BINDER_MAX_CONTEXTS` -/
def maxContexts : Nat := 16

/-- `BINDER_CONTEXT_NAME_MAX` -/
def contextNameMax : Nat := 256

/-- What the nodes are about in `struct binder_context`. -/
structure ContextEntry where
  name : Bytes := []
  minor : Nat := 0
  inUse : Bool := false
  devfsHandle : Option Nat := none
  deriving DecidableEq, Repr

/-- `binder_contexts`, and `devfs` as far as the driver sees it: the handle it
would return next, the handles it has returned, and the calls of
`devfs_remove`. -/
structure NodeTable where
  entries : Nat → ContextEntry := fun _ => {}
  nextHandle : Nat := 1
  returned : List Nat := []
  removed : List Nat := []

namespace NodeTable

variable (t : NodeTable)

def updEntry (i : Nat) (f : ContextEntry → ContextEntry) : NodeTable :=
  { t with entries := Function.update t.entries i (f (t.entries i)) }

/-- `devfs_make_node` and `devfs_make_node_clone`: a handle, or nothing. -/
def makeNode (ok : Bool) : Option Nat × NodeTable :=
  if ok then
    (some t.nextHandle,
      { t with nextHandle := t.nextHandle + 1, returned := t.nextHandle :: t.returned })
  else (none, t)

/-! ## Loading and unloading -/

/-- The bytes of a name. -/
def asciiName (cs : List Char) : Bytes := cs.map fun c => UInt8.ofNat c.toNat

/-- `binder_static_contexts` -/
def staticContexts : List Bytes :=
  [asciiName ['b', 'i', 'n', 'd', 'e', 'r'], asciiName ['h', 'w', 'b', 'i', 'n', 'd', 'e', 'r'],
    asciiName ['v', 'n', 'd', 'b', 'i', 'n', 'd', 'e', 'r']]

/-- Publish the static contexts from entry `i` on; `oks` says what `devfs`
answers. -/
def initContexts (oks : Nat → Bool) : Nat → List Bytes → NodeTable → NodeTable × Option Errno
  | _, [], t => (t, none)
  | i, name :: names, t =>
      let t := t.updEntry i fun e => { e with name := name, minor := i, inUse := true }
      match t.makeNode (oks i) with
      | (none, t) => (t.updEntry i fun e => { e with inUse := false }, some .enomem)
      | (some handle, t) =>
          initContexts oks (i + 1) names
            (t.updEntry i fun e => { e with devfsHandle := some handle })

/-- `binder_devices_init`.  Without `binder-control` the driver loads all the
same. -/
def devicesInit (oks : Nat → Bool) : NodeTable × Option Errno :=
  match initContexts oks 0 staticContexts {} with
  | (t, some error) => (t, some error)
  | (t, none) =>
      match t.makeNode (oks staticContexts.length) with
      | (none, t) => (t, none)
      | (some handle, t) =>
          (t.updEntry (maxContexts - 1) fun e => { e with devfsHandle := some handle }, none)

/-- One turn of the loop of `binder_devices_fini`. -/
def finiEntry (t : NodeTable) (i : Nat) : NodeTable :=
  let t := match (t.entries i).devfsHandle with
    | some handle =>
        { t.updEntry i fun e => { e with devfsHandle := none } with
          removed := handle :: t.removed }
    | none => t
  t.updEntry i fun e => { e with inUse := false }

/-- `binder_devices_fini` -/
def devicesFini : NodeTable := (List.range maxContexts).foldl finiEntry t

/-! ## A request to `binder-control` -/

/-- The client's name as a C string. -/
def requestName (raw : Bytes) : Bytes := (raw.take (contextNameMax - 1)).takeWhile (· ≠ 0)

/-- The first part of `binder_ctl_add`, under the lock: reserve an entry. -/
def ctlAddReserve (raw : Bytes) : NodeTable × Except Errno Nat :=
  let name := requestName raw
  if name = [] ∨ name.contains 0x2f then (t, .error .einval)
  else if (List.range maxContexts).any fun i =>
      (t.entries i).inUse && (t.entries i).name = name then (t, .error .eexist)
  else
    match (List.range maxContexts).find? fun i => !(t.entries i).inUse with
    | none => (t, .error .enospc)
    | some i =>
        (t.updEntry i fun e => { e with name := name, minor := i, inUse := true }, .ok i)

/-- The second part: make the node, and record its handle or give the entry
back. -/
def ctlAddPublish (i : Nat) (ok : Bool) : NodeTable × Except Errno Nat :=
  match t.makeNode ok with
  | (none, t) => (t.updEntry i fun e => { e with inUse := false }, .error .enomem)
  | (some handle, t) =>
      (t.updEntry i fun e => { e with devfsHandle := some handle }, .ok i)

/-- `binder_ctl_add`, when nobody comes in between. -/
def ctlAdd (raw : Bytes) (ok : Bool) : NodeTable × Except Errno Nat :=
  match t.ctlAddReserve raw with
  | (t, .error error) => (t, .error error)
  | (t, .ok i) => t.ctlAddPublish i ok

end NodeTable

/-- The table after a successful start and any number of requests, where nodes are
made for entries that satisfy `ok`; `inFlight` are the entries whose nodes are
still being made. -/
inductive Adding (ok : NodeTable → Nat → Prop) : NodeTable → List Nat → Prop
  | start (oks : Nat → Bool) (t : NodeTable) (h : NodeTable.devicesInit oks = (t, none)) :
      Adding ok t []
  | refused {t t' : NodeTable} {inFlight : List Nat} (h : Adding ok t inFlight)
      (raw : Bytes) (error : Errno) (hadd : t.ctlAddReserve raw = (t', .error error)) :
      Adding ok t' inFlight
  | reserved {t t' : NodeTable} {inFlight : List Nat} (h : Adding ok t inFlight)
      (raw : Bytes) (i : Nat) (hadd : t.ctlAddReserve raw = (t', .ok i)) :
      Adding ok t' (i :: inFlight)
  | published {t : NodeTable} {inFlight : List Nat} (h : Adding ok t inFlight) (i : Nat)
      (hi : i ∈ inFlight) (made : Bool) (hok : made = true → ok t i) :
      Adding ok (t.ctlAddPublish i made).1 (inFlight.erase i)

namespace NodeTable

variable {t t' : NodeTable}

/-! ## Names -/

theorem updEntry_self (t : NodeTable) (i : Nat) (f : ContextEntry → ContextEntry) :
    (t.updEntry i f).entries i = f (t.entries i) := Function.update_self ..

theorem updEntry_of_ne (t : NodeTable) {i j : Nat} (h : j ≠ i) (f : ContextEntry → ContextEntry) :
    (t.updEntry i f).entries j = t.entries j := Function.update_of_ne h ..

/-- No two entries in use have one name. -/
def NamesDistinct (t : NodeTable) : Prop :=
  ∀ i j, i < maxContexts → j < maxContexts → (t.entries i).inUse = true →
    (t.entries j).inUse = true → (t.entries i).name = (t.entries j).name → i = j

/-- An entry that is not in use gets a name nobody has. -/
def reserve (t : NodeTable) (i : Nat) (name : Bytes) : NodeTable :=
  t.updEntry i fun e => { e with name := name, minor := i, inUse := true }

/-- The name is not in use. -/
def Unnamed (t : NodeTable) (name : Bytes) : Prop :=
  ∀ j < maxContexts, (t.entries j).inUse = true → (t.entries j).name ≠ name

/-- What a reservation does, if it is made. -/
theorem ctlAddReserve_eq_ok {raw : Bytes} {i : Nat} (h : t.ctlAddReserve raw = (t', .ok i)) :
    i < maxContexts ∧ (t.entries i).inUse = false ∧ t.Unnamed (requestName raw) ∧
      t' = t.reserve i (requestName raw) := by
  unfold ctlAddReserve at h
  simp only at h
  split at h
  · cases h
  split at h
  · cases h
  rename_i hnew
  split at h
  · cases h
  rename_i k hfind
  cases h
  obtain ⟨hfree, hmem, -⟩ := List.find?_range_eq_some.mp hfind
  refine ⟨List.mem_range.mp hmem, by simpa using hfree, ?_, rfl⟩
  intro j hj huse hname
  refine hnew (List.any_eq_true.mpr ⟨j, List.mem_range.mpr hj, ?_⟩)
  simp [huse, hname]

theorem ctlAddReserve_eq_error {raw : Bytes} {error : Errno}
    (h : t.ctlAddReserve raw = (t', .error error)) : t' = t := by
  unfold ctlAddReserve at h
  simp only at h
  split at h
  · cases h
    rfl
  split at h
  · cases h
    rfl
  split at h
  · cases h
    rfl
  · cases h

/-- A name that is not taken may be reserved. -/
theorem NamesDistinct.reserve (h : t.NamesDistinct) {i : Nat} {name : Bytes}
    (hname : t.Unnamed name) : (t.reserve i name).NamesDistinct := by
  intro j k hj hk hju hku heq
  by_cases hji : j = i
  · by_cases hki : k = i
    · rw [hji, hki]
    · rw [NodeTable.reserve, updEntry_of_ne t hki] at hku heq
      rw [hji, updEntry_self] at heq
      exact absurd heq.symm (hname k hk hku)
  · rw [NodeTable.reserve, updEntry_of_ne t hji] at hju heq
    by_cases hki : k = i
    · rw [hki, updEntry_self] at heq
      exact absurd heq (hname j hj hju)
    · rw [updEntry_of_ne t hki] at heq
      rw [NodeTable.reserve, updEntry_of_ne t hki] at hku
      exact h j k hj hk hju hku heq

/-- Entries that go out of use or get a handle have the names they had. -/
theorem NamesDistinct.sub (h : t.NamesDistinct)
    (hsub : ∀ i, (t'.entries i).inUse = true → (t.entries i).inUse = true ∧
      (t'.entries i).name = (t.entries i).name) : t'.NamesDistinct := by
  intro i j hi hj hiu hju heq
  obtain ⟨hiu, hin⟩ := hsub i hiu
  obtain ⟨hju, hjn⟩ := hsub j hju
  exact h i j hi hj hiu hju (hin ▸ hjn ▸ heq)

theorem ctlAddPublish_true (t : NodeTable) (i : Nat) : (t.ctlAddPublish i true).1 =
    (t.makeNode true).2.updEntry i fun e => { e with devfsHandle := some t.nextHandle } := rfl

theorem ctlAddPublish_false (t : NodeTable) (i : Nat) : (t.ctlAddPublish i false).1 =
    t.updEntry i fun e => { e with inUse := false } := rfl

/-- The end of a request is about its own entry. -/
theorem ctlAddPublish_of_ne (t : NodeTable) {i j : Nat} (h : j ≠ i) (made : Bool) :
    (t.ctlAddPublish i made).1.entries j = t.entries j := by
  cases made with
  | true =>
      rw [ctlAddPublish_true, updEntry_of_ne _ h]
      rfl
  | false => rw [ctlAddPublish_false, updEntry_of_ne _ h]

theorem ctlAddPublish_name (t : NodeTable) (i : Nat) (made : Bool) (j : Nat) :
    ((t.ctlAddPublish i made).1.entries j).name = (t.entries j).name := by
  by_cases hj : j = i
  · subst hj
    cases made with
    | true =>
        rw [ctlAddPublish_true, updEntry_self]
        rfl
    | false => rw [ctlAddPublish_false, updEntry_self]
  · rw [ctlAddPublish_of_ne t hj]

theorem ctlAddPublish_inUse (t : NodeTable) (i : Nat) (made : Bool) (j : Nat)
    (h : ((t.ctlAddPublish i made).1.entries j).inUse = true) : (t.entries j).inUse = true := by
  by_cases hj : j = i
  · subst hj
    cases made with
    | true =>
        rw [ctlAddPublish_true, updEntry_self] at h
        exact h
    | false =>
        rw [ctlAddPublish_false, updEntry_self] at h
        cases h
  · rw [ctlAddPublish_of_ne t hj] at h
    exact h

theorem NamesDistinct.publish (h : t.NamesDistinct) (i : Nat) (made : Bool) :
    (t.ctlAddPublish i made).1.NamesDistinct :=
  h.sub fun j hj => ⟨ctlAddPublish_inUse t i made j hj, ctlAddPublish_name t i made j⟩

/-! ## Handles -/

/-- A handle for entry `i` does not go over one that the last entry holds. -/
def SparesLast (t : NodeTable) (i : Nat) : Prop :=
  i = maxContexts - 1 → (t.entries i).devfsHandle = none

/-- Every handle that `devfs` returned is in exactly one entry.  Only the last
entry may hold one without being in use. -/
structure Holds (t : NodeTable) (inFlight : List Nat) : Prop where
  idle : ∀ i, i ≠ maxContexts - 1 → (t.entries i).inUse = false →
    (t.entries i).devfsHandle = none
  flying : ∀ i ∈ inFlight, i < maxContexts ∧
    (i ≠ maxContexts - 1 → (t.entries i).devfsHandle = none)
  nodup : inFlight.Nodup
  used : ∀ i ∈ inFlight, (t.entries i).inUse = true
  held : ∀ h ∈ t.returned, ∃ i < maxContexts, (t.entries i).devfsHandle = some h
  below : ∀ i h, (t.entries i).devfsHandle = some h → h < t.nextHandle
  once : ∀ i j h, (t.entries i).devfsHandle = some h → (t.entries j).devfsHandle = some h → i = j
  kept : t.removed = []

/-- An entry is reserved that is not in use. -/
theorem Holds.reserve {inFlight : List Nat} (h : t.Holds inFlight) {i : Nat} (hi : i < maxContexts)
    (hfree : (t.entries i).inUse = false) (name : Bytes) :
    (t.reserve i name).Holds (i :: inFlight) := by
  have hhandle : ∀ j, ((t.reserve i name).entries j).devfsHandle = (t.entries j).devfsHandle := by
    intro j
    by_cases hj : j = i
    · rw [hj, NodeTable.reserve, updEntry_self]
    · rw [NodeTable.reserve, updEntry_of_ne t hj]
  have hnew : i ∉ inFlight := by
    intro hmem
    rw [h.used i hmem] at hfree
    cases hfree
  refine ⟨?_, ?_, List.nodup_cons.mpr ⟨hnew, h.nodup⟩, ?_, ?_, ?_, ?_, h.kept⟩
  · intro j hj hju
    rw [hhandle]
    by_cases hji : j = i
    · rw [hji] at hj ⊢
      exact h.idle i hj hfree
    · rw [NodeTable.reserve, updEntry_of_ne t hji] at hju
      exact h.idle j hj hju
  · intro j hj
    rw [hhandle]
    rcases List.mem_cons.mp hj with rfl | hj
    · exact ⟨hi, fun hj => h.idle j hj hfree⟩
    · exact h.flying j hj
  · intro j hj
    by_cases hji : j = i
    · rw [hji, NodeTable.reserve, updEntry_self]
    · rw [NodeTable.reserve, updEntry_of_ne t hji]
      exact h.used j ((List.mem_cons.mp hj).resolve_left hji)
  · intro handle hmem
    obtain ⟨j, hj, hjh⟩ := h.held handle hmem
    exact ⟨j, hj, (hhandle j).trans hjh⟩
  · intro j handle hj
    exact h.below j handle (hhandle j ▸ hj)
  · intro j k handle hj hk
    exact h.once j k handle (hhandle j ▸ hj) (hhandle k ▸ hk)

/-- A new node whose handle goes to an entry without one. -/
theorem Holds.store {inFlight : List Nat} (h : t.Holds inFlight) {i : Nat} (hi : i < maxContexts)
    (hnone : (t.entries i).devfsHandle = none)
    (huse : i = maxContexts - 1 ∨ (t.entries i).inUse = true) :
    ((t.makeNode true).2.updEntry i fun e =>
      { e with devfsHandle := some t.nextHandle }).Holds (inFlight.erase i) := by
  have hself : (((t.makeNode true).2.updEntry i fun e =>
      { e with devfsHandle := some t.nextHandle }).entries i).devfsHandle = some t.nextHandle := by
    rw [updEntry_self]
  have hother : ∀ j, j ≠ i → ((t.makeNode true).2.updEntry i fun e =>
      { e with devfsHandle := some t.nextHandle }).entries j = t.entries j := by
    intro j hj
    rw [updEntry_of_ne _ hj]
    rfl
  have hinUse : ∀ j, (((t.makeNode true).2.updEntry i fun e =>
      { e with devfsHandle := some t.nextHandle }).entries j).inUse = (t.entries j).inUse := by
    intro j
    by_cases hj : j = i
    · rw [hj, updEntry_self]
      rfl
    · rw [hother j hj]
  have hmem : ∀ j ∈ inFlight.erase i, j ≠ i ∧ j ∈ inFlight := fun j hj =>
    h.nodup.mem_erase_iff.mp hj
  refine ⟨?_, ?_, h.nodup.erase i, ?_, ?_, ?_, ?_, h.kept⟩
  · intro j hj hju
    rw [hinUse] at hju
    have hji : j ≠ i := by
      rintro rfl
      rcases huse with hlast | huse
      · exact hj hlast
      · rw [huse] at hju
        cases hju
    rw [hother j hji]
    exact h.idle j hj hju
  · intro j hj
    obtain ⟨hji, hj⟩ := hmem j hj
    rw [hother j hji]
    exact h.flying j hj
  · intro j hj
    rw [hinUse]
    exact h.used j (hmem j hj).2
  · intro handle hret
    rcases List.mem_cons.mp hret with rfl | hret
    · exact ⟨i, hi, hself⟩
    · obtain ⟨j, hj, hjh⟩ := h.held handle hret
      have hji : j ≠ i := by
        rintro rfl
        rw [hnone] at hjh
        cases hjh
      exact ⟨j, hj, by rw [hother j hji]; exact hjh⟩
  · intro j handle hj
    by_cases hji : j = i
    · rw [hji, hself] at hj
      cases hj
      exact Nat.lt_succ_self _
    · rw [hother j hji] at hj
      exact Nat.lt_succ_of_lt (h.below j handle hj)
  · -- the new handle is none of the old ones
    intro j k handle hj hk
    by_cases hji : j = i
    · by_cases hki : k = i
      · rw [hji, hki]
      · rw [hji, hself] at hj
        rw [hother k hki] at hk
        cases hj
        exact absurd (h.below k _ hk) (Nat.lt_irrefl _)
    · rw [hother j hji] at hj
      by_cases hki : k = i
      · rw [hki, hself] at hk
        cases hk
        exact absurd (h.below j _ hj) (Nat.lt_irrefl _)
      · rw [hother k hki] at hk
        exact h.once j k handle hj hk

/-- A request that gets no node gives its entry back. -/
theorem Holds.giveBack {inFlight : List Nat} (h : t.Holds inFlight) {i : Nat}
    (hi : i ∈ inFlight) :
    (t.updEntry i fun e => { e with inUse := false }).Holds (inFlight.erase i) := by
  have hhandle : ∀ j, ((t.updEntry i fun e => { e with inUse := false }).entries j).devfsHandle =
      (t.entries j).devfsHandle := by
    intro j
    by_cases hj : j = i
    · rw [hj, updEntry_self]
    · rw [updEntry_of_ne t hj]
  refine ⟨?_, ?_, h.nodup.erase i, ?_, ?_, ?_, ?_, h.kept⟩
  · intro j hj hju
    rw [hhandle]
    by_cases hji : j = i
    · rw [hji] at hj ⊢
      exact (h.flying i hi).2 hj
    · rw [updEntry_of_ne t hji] at hju
      exact h.idle j hj hju
  · intro j hj
    rw [hhandle]
    exact h.flying j (List.mem_of_mem_erase hj)
  · intro j hj
    obtain ⟨hji, hj⟩ := h.nodup.mem_erase_iff.mp hj
    rw [updEntry_of_ne t hji]
    exact h.used j hj
  · intro handle hmem
    obtain ⟨j, hj, hjh⟩ := h.held handle hmem
    exact ⟨j, hj, (hhandle j).trans hjh⟩
  · intro j handle hj
    exact h.below j handle (hhandle j ▸ hj)
  · intro j k handle hj hk
    exact h.once j k handle (hhandle j ▸ hj) (hhandle k ▸ hk)

theorem Holds.publish {inFlight : List Nat} (h : t.Holds inFlight) {i : Nat} (hi : i ∈ inFlight)
    (made : Bool) (hok : made = true → t.SparesLast i) :
    (t.ctlAddPublish i made).1.Holds (inFlight.erase i) := by
  obtain ⟨hlt, hnone⟩ := h.flying i hi
  cases made with
  | true =>
      refine h.store hlt ?_ (.inr (h.used i hi))
      by_cases hlast : i = maxContexts - 1
      · exact hok rfl hlast
      · exact hnone hlast
  | false => exact h.giveBack hi

/-! ## Unloading -/

theorem finiEntry_of_ne (t : NodeTable) {i j : Nat} (h : j ≠ i) :
    (t.finiEntry i).entries j = t.entries j := by
  unfold finiEntry
  rw [updEntry_of_ne _ h]
  split
  · exact updEntry_of_ne t h fun e => { e with devfsHandle := none }
  · rfl

/-- The loop of `binder_devices_fini` removes the handles it comes by. -/
theorem finiEntries_removed {l : List Nat} (hl : l.Nodup) (t : NodeTable) :
    (l.foldl finiEntry t).removed =
      (l.filterMap fun i => (t.entries i).devfsHandle).reverse ++ t.removed := by
  induction l generalizing t with
  | nil => rfl
  | cons i l ih =>
      obtain ⟨hi, hl⟩ := List.nodup_cons.mp hl
      have hrest : (l.filterMap fun j => ((t.finiEntry i).entries j).devfsHandle) =
          l.filterMap fun j => (t.entries j).devfsHandle := by
        refine List.filterMap_congr fun j hj => ?_
        have hji : j ≠ i := fun he => hi (he ▸ hj)
        rw [finiEntry_of_ne t hji]
      rw [List.foldl_cons, ih hl, hrest]
      cases hh : (t.entries i).devfsHandle with
      | none => simp [finiEntry, hh, updEntry]
      | some handle => simp [finiEntry, hh, updEntry]

/-- A table that holds every handle once gives every handle back once. -/
theorem Holds.fini {inFlight : List Nat} (h : t.Holds inFlight) {handle : Nat}
    (hmem : handle ∈ t.returned) : t.devicesFini.removed.count handle = 1 := by
  obtain ⟨i, hi, hih⟩ := h.held handle hmem
  rw [devicesFini, finiEntries_removed List.nodup_range, h.kept, List.append_nil,
    List.count_reverse]
  refine List.count_eq_one_of_mem (List.nodup_range.filterMap ?_) ?_
  · intro j k handle hj hk
    exact h.once j k handle (Option.mem_def.mp hj) (Option.mem_def.mp hk)
  · exact List.mem_filterMap.mpr ⟨i, List.mem_range.mpr hi, hih⟩

/-! ## Loading -/

theorem Holds.empty : ({} : NodeTable).Holds [] := by
  constructor <;> simp

/-- The static contexts are published into entries that were blank. -/
theorem Holds.initContexts {oks : Nat → Bool} {names : List Bytes} {i : Nat}
    (hnodup : names.Nodup) (hlen : i + names.length < maxContexts) (h : t.Holds [])
    (hnames : t.NamesDistinct) (hblank : ∀ j, i ≤ j → t.entries j = {})
    (hfresh : ∀ name ∈ names, t.Unnamed name)
    (hinit : initContexts oks i names t = (t', none)) :
    t'.Holds [] ∧ t'.NamesDistinct ∧ (t'.entries (maxContexts - 1)).devfsHandle = none := by
  induction names generalizing i t with
  | nil =>
      cases hinit
      exact ⟨h, hnames, by rw [hblank _ (by simp at hlen; omega)]⟩
  | cons name names ih =>
      obtain ⟨hnew, hnodup⟩ := List.nodup_cons.mp hnodup
      rw [List.length_cons] at hlen
      have hi : i < maxContexts := by omega
      have hfree : (t.entries i).inUse = false := by rw [hblank i (Nat.le_refl i)]
      have hreserved := h.reserve hi hfree name
      have hnamed := hnames.reserve (i := i) (hfresh name List.mem_cons_self)
      unfold NodeTable.initContexts makeNode at hinit
      simp only at hinit
      cases hok : oks i with
      | false => simp [hok] at hinit
      | true =>
          simp only [hok, if_true] at hinit
          have hpublished := hreserved.publish List.mem_cons_self true fun _ hlast =>
            absurd hlast (by omega)
          rw [List.erase_cons_head] at hpublished
          refine ih hnodup (by omega) hpublished ?_ ?_ ?_ hinit
          · exact hnamed.publish i true
          · intro j hj
            have hji : j ≠ i := by omega
            rw [ctlAddPublish_of_ne _ hji, NodeTable.reserve, updEntry_of_ne t hji]
            exact hblank j (by omega)
          · intro other hother j hj hju heq
            by_cases hji : j = i
            · rw [hji, ctlAddPublish_name, NodeTable.reserve, updEntry_self] at heq
              subst heq
              exact hnew hother
            · rw [ctlAddPublish_of_ne _ hji, NodeTable.reserve, updEntry_of_ne t hji] at hju heq
              exact hfresh other (List.mem_cons_of_mem _ hother) j hj hju heq

/-- After a start that succeeded every node is in the table, under its own name. -/
theorem devicesInit_holds {oks : Nat → Bool} (h : devicesInit oks = (t, none)) :
    t.Holds [] ∧ t.NamesDistinct := by
  unfold devicesInit at h
  split at h
  · cases h
  · rename_i t₀ hinit
    obtain ⟨hholds, hnames, hlast⟩ := Holds.initContexts (by decide +kernel) (by decide) .empty
      (by intro i j _ _ hi; simp at hi) (fun _ _ => rfl) (by intro _ _ j _ hj; simp at hj) hinit
    unfold makeNode at h
    cases hok : oks staticContexts.length with
    | false =>
        simp only [hok] at h
        cases h
        exact ⟨hholds, hnames⟩
    | true =>
        simp only [hok, if_true] at h
        cases h
        refine ⟨hholds.store (by decide) hlast (.inl rfl), hnames.sub fun i hi => ?_⟩
        by_cases hil : i = maxContexts - 1
        · subst hil
          rw [updEntry_self] at hi ⊢
          exact ⟨hi, rfl⟩
        · rw [updEntry_of_ne _ hil] at hi ⊢
          exact ⟨hi, rfl⟩

end NodeTable

/-! ## Runs -/

theorem Adding.names {ok : NodeTable → Nat → Prop} {t : NodeTable} {inFlight : List Nat}
    (h : Adding ok t inFlight) : t.NamesDistinct := by
  induction h with
  | start oks t hinit => exact (NodeTable.devicesInit_holds hinit).2
  | refused _ raw error hadd ih =>
      rw [NodeTable.ctlAddReserve_eq_error hadd]
      exact ih
  | reserved _ raw i hadd ih =>
      obtain ⟨-, -, hname, rfl⟩ := NodeTable.ctlAddReserve_eq_ok hadd
      exact ih.reserve hname
  | published _ i _ made _ ih => exact ih.publish i made

/-- Requests that leave the handle in the last entry alone lose none. -/
theorem Adding.holds {t : NodeTable} {inFlight : List Nat}
    (h : Adding NodeTable.SparesLast t inFlight) : t.Holds inFlight := by
  induction h with
  | start oks t hinit => exact (NodeTable.devicesInit_holds hinit).1
  | refused _ raw error hadd ih =>
      rw [NodeTable.ctlAddReserve_eq_error hadd]
      exact ih
  | reserved _ raw i hadd ih =>
      obtain ⟨hi, hfree, -, rfl⟩ := NodeTable.ctlAddReserve_eq_ok hadd
      exact ih.reserve hi hfree _
  | published _ i hi made hok ih => exact ih.publish hi made hok

/-- A request without anybody in between. -/
theorem Adding.ctlAdd {ok : NodeTable → Nat → Prop} {t : NodeTable} {inFlight : List Nat}
    (h : Adding ok t inFlight) (raw : Bytes) (made : Bool)
    (hok : ∀ i, (t.ctlAddReserve raw).2 = .ok i → ok (t.ctlAddReserve raw).1 i) :
    Adding ok (t.ctlAdd raw made).1 inFlight := by
  unfold NodeTable.ctlAdd
  cases hadd : t.ctlAddReserve raw with
  | mk t' result =>
      rw [hadd] at hok
      cases result with
      | error error => exact h.refused raw error hadd
      | ok i =>
          have hpublished := (h.reserved raw i hadd).published i List.mem_cons_self made
            fun _ => hok i rfl
          rwa [List.erase_cons_head] at hpublished

/-- **Every published node is withdrawn once**, and no two contexts in use have
one name, if no handle is stored in the last entry while that holds another. -/
theorem nodes_withdrawn {t : NodeTable} (h : Adding NodeTable.SparesLast t []) :
    t.NamesDistinct ∧ ∀ handle ∈ t.returned, t.devicesFini.removed.count handle = 1 :=
  ⟨h.names, fun _ hmem => h.holds.fini hmem⟩

/-- The table after start and requests for the given names. -/
def NodeTable.minted (names : List Bytes) : NodeTable :=
  names.foldl (fun t name => (t.ctlAdd name true).1) (NodeTable.devicesInit fun _ => true).1

theorem nodes_withdrawn_one :
    (NodeTable.minted [[97]]).returned = [5, 4, 3, 2, 1] ∧
      (NodeTable.minted [[97]]).NamesDistinct ∧ ∀ handle ∈ (NodeTable.minted [[97]]).returned,
        (NodeTable.minted [[97]]).devicesFini.removed.count handle = 1 := by
  have hstart : Adding NodeTable.SparesLast (NodeTable.devicesInit fun _ => true).1 [] :=
    .start (fun _ => true) _ (by rfl)
  refine ⟨by decide +kernel, nodes_withdrawn (hstart.ctlAdd [97] true fun i hi => ?_)⟩
  cases hi
  exact fun hlast => absurd hlast (by decide)

/-- Thirteen names, one more than there are entries before the last. -/
def thirteenNames : List Bytes := (List.range 13).map fun i => [UInt8.ofNat (97 + i)]

/-- **The node of `binder-control` stays behind.**  The thirteenth device gets
the last entry, and with it the place of the handle that `devfs` returned for
`binder-control`, which is never removed. -/
theorem control_node_left_behind :
    Adding (fun _ _ => True) (NodeTable.minted thirteenNames) [] ∧
      4 ∈ (NodeTable.minted thirteenNames).returned ∧
      (NodeTable.minted thirteenNames).devicesFini.removed.count 4 = 0 := by
  have hmint : ∀ (names : List Bytes) (t : NodeTable), Adding (fun _ _ => True) t [] →
      Adding (fun _ _ => True) (names.foldl (fun t name => (t.ctlAdd name true).1) t) [] := by
    intro names
    induction names with
    | nil => exact fun _ h => h
    | cons name names ih => exact fun t h => ih _ (h.ctlAdd name true fun _ _ => trivial)
  exact ⟨hmint _ _ (.start (fun _ => true) _ (by rfl)), by decide +kernel, by decide +kernel⟩

end Binder
