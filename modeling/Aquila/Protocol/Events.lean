import Aquila.Protocol.Node
import Aquila.ProtocolDB.Iterator

/-! # Event dispatch

`checkEvent` runs user code in the middle of a database iteration, and `emit` calls
`checkEvent` again. The nesting is cut off at a depth; a run that needs more has no
result.
-/

namespace Aquila.Protocol
open Library ProtocolDB

variable {σ : Type}

namespace Node

def subscribed (sub : OnSubscription σ) (o : Occurrence) : Option (σ → Program σ) :=
  if o.eName = some sub.eName ∧
      (sub.euiAddress = (fun _ => 0xFF#8) ∨ sub.euiAddress = o.euiAddress) then
    match sub.function with
    | some function => some (function o.param o.hasParam)
    | none => sub.extFunction.map
        (fun function => function o.param o.hasParam o.shortAddress o.euiAddress)
  else none

/-- `AquilaProtocol::checkLocalEvent`, over the remaining subscriptions. -/
def checkLocalEvent (emit : Emission → NodeState σ → Option (NodeState σ)) (o : Occurrence) :
    List (OnSubscription σ) → NodeState σ → Option (NodeState σ)
  | [], s => some s
  | sub :: subs, s =>
    match subscribed sub o with
    | none => checkLocalEvent emit o subs s
    | some function => do
      let (_, s) ← (function s.vars).run emit s
      checkLocalEvent emit o subs s

def Matches (o : Occurrence) (entry : Entry) : Prop :=
  entry.event = o.event ∧ o.euiAddress = entry.address

instance (o : Occurrence) (entry : Entry) : Decidable (Matches o entry) :=
  inferInstanceAs (Decidable (_ ∧ _))

def actionCall (o : Occurrence) (entry : Entry) : ActionCall :=
  if o.hasParam then ⟨entry.action, o.param, o.hasParam⟩
  else ⟨entry.action, entry.param, entry.config.hasParam⟩

/-- The loop of `checkEvent` over the database, with `left` turns to go, and the
`doAction` calls it makes. -/
def checkEntries (n : Node σ) (emit : Emission → NodeState σ → Option (NodeState σ))
    (header : DBHeader) (o : Occurrence) :
    (left : ℕ) → (entry : Entry) → NodeState σ → Option (List ActionCall × NodeState σ)
  | 0, _, s => some ([], s)
  | left + 1, entry, s =>
    let (status, next, db) := s.db.iteratorGetNextEntry header entry
    let s := { s with db := db }
    let entry := next.getD entry
    if status = .ok ∧ Matches o entry then do
      let (_, s) ← n.doAction emit (actionCall o entry) s
      let (calls, s) ← n.checkEntries emit header o left entry s
      some (actionCall o entry :: calls, s)
    else n.checkEntries emit header o left entry s

/-- `AquilaProtocol::checkEvent`, with the `doAction` calls of its own loop. -/
def checkEvent (n : Node σ) (emit : Emission → NodeState σ → Option (NodeState σ))
    (locals : Locals) (o : Occurrence) (s : NodeState σ) :
    Option (List ActionCall × NodeState σ) := do
  let s ← checkLocalEvent emit o n.onSubs s
  let header := (s.db.readHeader locals.header).2
  let nEntries := if maxEntries < header.nEntries.toNat then 0 else header.nEntries.toNat
  n.checkEntries emit locals.header o nEntries locals.entry { s with db := s.db.iteratorBegin }

def ownOccurrence (n : Node σ) (e : Emission) : Occurrence :=
  ⟨n.euiAddress, e.event, e.param, e.hasParam, n.events e.event.toNat, n.shortAddr⟩

/-- `AquilaProtocol::emit`, with user code nested at most `depth` emissions deep. -/
def emit (n : Node σ) (locals : Locals) :
    (depth : ℕ) → Emission → NodeState σ → Option (NodeState σ)
  | 0, _, _ => none
  | depth + 1, e, s => do
    let s := { s with sent := s.sent ++ [send n.version e.dest (n.emitCommand e)] }
    let (_, s) ← n.checkEvent (n.emit locals depth) locals (n.ownOccurrence e) s
    some s

/-! ### What is asked of `checkEvent` -/

def expected (o : Occurrence) (rules : List Entry) : List ActionCall :=
  (rules.filter (fun entry => Matches o entry)).map (actionCall o)

def silentAction (n : Node σ) (call : ActionCall) (vars : σ) : Option σ :=
  match n.actionFunction call with
  | some function => (function vars).silent
  | none => some vars

/-- Run in order, no action but the last emits an event. -/
def Quiet (n : Node σ) : List ActionCall → σ → Prop
  | [], _ => True
  | [_], _ => True
  | call :: calls, vars => ∃ vars', n.silentAction call vars = some vars' ∧ n.Quiet calls vars'

end Node

end Aquila.Protocol
