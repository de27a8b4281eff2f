import DevfsBinder.RunRefinement

/-!
# The driver runs the call machine

The call machine says what a send, a read, a free and a departure can come to,
with no word about references, payloads, wire formats or wakeups.  Its steps, with
what the driver knows about the client left open, make a transition system
(`Step`), and every run of the driver is a run of it (`reachable_refines`): what is
proved of all runs of the call machine holds of the driver.
-/

namespace Binder

namespace Calls

variable {v v' : Calls}

/-- A step of the call machine. -/
inductive Step (v : Calls) : Calls → Prop
  | quiet {v' : Calls} (h : Quiet v v') : Step v v'
  | openProc : Step v (v.bump.setProc v.nextId (some false))
  | enter (p : ProcId) (hp : (v.procs p).isSome) :
      Step v (v.bump.setThread v.nextId (some ⟨p, false, none, .ok⟩))
  | send {v' : Calls} (th : ThreadId) (p : ProcId) (reply : Bool) (hth : v.procOf th = some p)
      (h : Send (fun _ _ => True) th reply v v') : Step v v'
  | free {v' : Calls} (p : ProcId) (ptr : Nat) (hp : (v.procs p).isSome)
      (h : FreeBuffer p ptr v v') : Step v v'
  | read {v' : Calls} (th : ThreadId) (h : Read True True th v v') : Step v v'
  | depart {v' : Calls} (th : ThreadId) (p : ProcId) (hth : v.procOf th = some p)
      (hp : v.procs p = some false) (h : Depart p th v v') : Step v v'
  | close {v' : Calls} (p : ProcId) (hp : (v.procs p).isSome) (h : Close p v v') : Step v v'

/-- The states of the runs of the call machine. -/
def Run (v : Calls) : Prop := Relation.ReflTransGen Step Driver.init.view v

/-- A send that is aimed somewhere is a send. -/
theorem Send.aimless {aim : NodeId → Txn → Prop} {th : ThreadId} {reply : Bool}
    (h : Send aim th reply v v') : Send (fun _ _ => True) th reply v v' := by
  cases h with
  | refused br hbr h₁ h₂ => exact .refused br hbr h₁ h₂
  | deadReply hreply t ht hdead => exact .deadReply hreply t ht hdead
  | call hreply x b n q h₁ hx haim h₂ => exact .call hreply x b n q h₁ hx trivial h₂
  | oneway hreply x b n q h₁ hx haim h₂ => exact .oneway hreply x b n q h₁ hx trivial h₂
  | reply hreply target call x b h₁ hx h₂ => exact .reply hreply target call x b h₁ hx h₂

/-- A read whose client is known is a read. -/
theorem Read.anyway {fault tear : Prop} {th : ThreadId} (h : Read fault tear th v v') :
    Read True True th v v' := by
  cases h with
  | quiet hq => exact .quiet hq
  | call t x b buf cmd htakes hx hb hbuf hnode hreply hcmd =>
      exact .call t x b buf cmd htakes hx hb hbuf hnode hreply hcmd
  | other t x b buf cmd htakes hx hb hbuf hkind hcmd =>
      exact .other t x b buf cmd htakes hx hb hbuf hkind hcmd
  | undeliverable t x htakes hx hq => exact .undeliverable t x htakes hx hq
  | torn htear t htakes => exact .torn trivial t htakes
  | lost t htakes hwhy => exact .lost t htakes (.inl trivial)
  | tornLost hfault htear t htakes => exact .tornLost trivial trivial t htakes
  | error e cmd htakes => exact .error e cmd htakes
  | errorLost hfault e htakes => exact .errorLost trivial e htakes

end Calls

namespace Driver

open Calls

variable {s : Driver}

theorem Acts.step {a : Action} {v' : Calls} (h : Acts s a v') : Step s.view v' := by
  cases h with
  | quiet a h => exact .quiet h
  | openProc env pid ctx => exact .openProc
  | enter env p tid hp => exact .enter p hp
  | send env th p reply isSg tr hth h => exact .send th p reply hth h.aimless
  | free env th ptr p hth hp h => exact .free p ptr hp h
  | read env th rc hrc h => exact .read th h.anyway
  | depart th p hth hp h => exact .depart th p hth hp h
  | close p hp h => exact .close p hp h

/-- **Refinement.**  Every state of every run of the driver is, as the call machine
sees it, a state of a run of the call machine. -/
theorem reachable_refines (h : Reachable s) : Run s.view := by
  refine Reaches.invariant (P := fun s => Run s.view) .refl ?_ h
  intro s a hs hrun _
  obtain ⟨hsound, -, hbase, haimed⟩ := Reachable.steady hs
  exact hrun.tail (act_refines hsound hbase haimed a).step

/-- Thread 6 calls the manager, whose thread 2 takes the call and answers it, and
reads the answer. -/
def callAndReply : List Action :=
  let message : Message := { data := LittleEndian.leBytes 8 7 }
  twoProcesses ++ [message.send 6, .command {} 2 .enterLooper, .readStart {} 2 0x9000 256 0,
    .readTurn {} 2, .readTurn {} 2, .leave 2, message.reply 2, .readStart {} 6 0x9000 256 0,
    .readTurn {} 6, .readTurn {} 6]

/-- Call 10 is made, delivered and answered by 14, which is delivered in its turn. -/
theorem reachable_refines_callAndReply : Run (Driver.init.run callAndReply).view ∧
    (Driver.init.run callAndReply).view.trace =
      [.emit 6 .reply (.transaction 14), .emit 6 .transactionComplete (.complete 11),
        .accept 2 14 5 false, .reply 2 10 14, .emit 2 .transaction (.transaction 10),
        .accept 6 10 1 true] :=
  ⟨reachable_refines (Reachable.run .init callAndReply), by decide +kernel⟩

end Driver

end Binder
