import Aquila.Protocol.Delivery
import Aquila.Protocol.ExchangeRuns
import Aquila.Protocol.UserCode

/-! # One reply to each request

A GET, POST, ACTION, CUSTOM or undefined packet is answered once, whatever events the
action it calls emits, unless its command code is one that the switch of its type has no
case for.
-/

namespace Aquila.Protocol
open Library ProtocolDB

variable {σ : Type}

def CommandType.AsksReply (type : CommandType) : Prop :=
  type ≠ .nack ∧ type ≠ .ack ∧ type ≠ .event

instance (type : CommandType) : Decidable type.AsksReply := inferInstanceAs (Decidable (_ ∧ _ ∧ _))

/-- Command bytes of an ACK, a NACK, or the POST that a GET packet asks for. -/
def IsReplyTo (packet c : List Byte) : Prop :=
  IsReceipt c ∨ (commandType (packet.getD 1 0) = .get ∧
    ∃ control code rest, c = control :: code :: rest ∧ commandType control = .post ∧
      Command.ofByte code = Command.ofByte (packet.getD 2 0))

/-- Parsing the packet sends one reply to its source, after events that user code emits. -/
def Node.AnswersOnce (n : Node σ) (locals : Locals) (depth : ℕ) (sAddr : Word)
    (packet : List Byte) (s : NodeState σ) : Prop :=
  ∃ s' c, ∃ es : List Emission,
    n.parsePacket (n.emit locals depth) locals sAddr packet s = some s' ∧
    s'.sent = s.sent ++ es.map n.eventPacket ++ [send n.version sAddr c] ∧ IsReplyTo packet c ∧
    (send n.version sAddr c).message.payload = n.version :: c

/-- A complete GET or POST of the own version with a command code that its switch has no
case for. -/
def UnknownCommand (version : Byte) (packet : List Byte) : Prop :=
  packet.getD 0 0 = version ∧ 3 + (hasParamFlag (packet.getD 1 0)).toNat ≤ packet.length ∧
    match commandType (packet.getD 1 0) with
    | .get => Command.ofByte (packet.getD 2 0) ∈ [.clear, .addEntry, .delEntry, .other]
    | .post => Command.ofByte (packet.getD 2 0) ∉ [.clear, .entry, .addEntry, .delEntry]
    | _ => False

/-! ### What a request is decoded to -/

section
variable (version : Byte) (packet : List Byte)

/-- A packet that asks for a reply runs user code only as an action, and reads only as a GET. -/
theorem received_cases (htype : (commandType (packet.getD 1 0)).AsksReply) :
    (received version packet).Plain ∨
      (∃ command param hasParam, received version packet = .action command param hasParam) ∨
      ∃ param hasParam, commandType (packet.getD 1 0) = .get ∧
        received version packet = .get (.ofByte (packet.getD 2 0)) param hasParam := by
  by_cases hlong : 2 ≤ packetSize packet
  · by_cases hversion : packet.getD 0 0 = version
    · rw [received_own version packet hlong hversion]
      cases htypes : commandType (packet.getD 1 0) with
      | nack => exact absurd htypes htype.1
      | ack => exact absurd htypes htype.2.1
      | event => exact absurd htypes htype.2.2
      | action =>
        dsimp only [parseAction]
        split
        case isTrue => exact Or.inl trivial
        case isFalse => exact Or.inr (Or.inl ⟨_, _, _, rfl⟩)
      | get =>
        dsimp only [parseGet]
        split
        case isTrue => exact Or.inl trivial
        case isFalse =>
          right
          right
          cases hasParamFlag (packet.getD 1 0) with
          | true => exact ⟨_, _, rfl, rfl⟩
          | false => exact ⟨_, _, rfl, rfl⟩
      | post => exact Or.inl (plain_parsePost _ _ _ _)
      | custom => exact Or.inl trivial
      | undefined => exact Or.inl trivial
    · rw [received_other version packet hlong hversion]
      exact Or.inl trivial
  · rw [received_short version packet (not_le.mp hlong)]
    exact Or.inl trivial

theorem needsNoAnswer_iff_unknown (locals : Locals) (db : Store) (sAddr : Word)
    (hsAddr : sAddr ≠ Mesh.broadcast) (hlong : 2 ≤ packet.length)
    (hsize : packet.length ≤ Mesh.maxPayload)
    (htype : (commandType (packet.getD 1 0)).AsksReply) :
    NeedsNoAnswer version locals sAddr db packet ↔ UnknownCommand version packet := by
  have hmax : Mesh.maxPayload = 105 := rfl
  have hpacketSize : packetSize packet = packet.length := Nat.mod_eq_of_lt (by omega)
  rw [NeedsNoAnswer, UnknownCommand, hpacketSize, and_iff_right hlong]
  apply and_congr_right
  intro _
  cases htypes : commandType (packet.getD 1 0) with
  | nack => exact absurd htypes htype.1
  | ack => exact absurd htypes htype.2.1
  | event => exact absurd htypes htype.2.2
  | get =>
    apply and_congr_right
    intro _
    cases Command.ofByte (packet.getD 2 0) <;> simp [hsAddr]
  | post => simp
  | _ => simp

end

/-! ### What is sent for it -/

namespace Node
variable (n : Node σ) (locals : Locals) (depth : ℕ) (sAddr : Word) (packet : List Byte)
  (s : NodeState σ)

theorem IsAnswerTo.isReplyTo {command : Command} {c : List Byte} (h : n.IsAnswerTo command c)
    (htype : commandType (packet.getD 1 0) = .get)
    (hcommand : Command.ofByte (packet.getD 2 0) = command) : IsReplyTo packet c := by
  rcases h.kind with hreceipt | ⟨control, code, rest, hc, hcontrol, hcode⟩
  · exact Or.inl hreceipt
  · exact Or.inr ⟨htype, control, code, rest, hc, hcontrol, hcode.trans hcommand.symm⟩

theorem length_receipt {c : List Byte} (h : IsReceipt c) : c.length = 1 := by
  rcases h with rfl | rfl
  · rfl
  · rfl

/-- A packet that asks for a reply is parsed in silence, or answered after the events of its
action. -/
theorem parsePacket_sent (htype : (commandType (packet.getD 1 0)).AsksReply)
    (hfits : n.DescriptionsFit)
    (hreturns : ∀ call, n.doAction (n.emit locals depth) call s ≠ none) :
    ∃ s', n.parsePacket (n.emit locals depth) locals sAddr packet s = some s' ∧
      ((Unanswered locals sAddr s (received n.version packet) ∧ s'.sent = s.sent) ∨
        (¬ Unanswered locals sAddr s (received n.version packet) ∧
          ∃ c, ∃ es : List Emission,
            s'.sent = s.sent ++ es.map n.eventPacket ++ [send n.version sAddr c] ∧
            IsReplyTo packet c ∧ c.length < Mesh.maxPayload)) := by
  have hreceipt (c : List Byte) (hc : IsReceipt c) : c.length < Mesh.maxPayload := by
    rw [length_receipt hc]
    decide
  rcases received_cases n.version packet htype with
    hplain | ⟨command, param, hasParam, haction⟩ | ⟨param, hasParam, hget, hreceived⟩
  · rcases n.plain_receipt (n.emit locals depth) locals sAddr _ s hplain with ⟨s', hact, hreplies⟩
    refine ⟨s', hact, ?_⟩
    rcases hreplies with hsilent | ⟨hanswered, c, hc, hsent⟩
    · exact Or.inl hsilent
    · exact Or.inr ⟨hanswered, c, [], by simpa using hsent, Or.inl hc, hreceipt c hc⟩
  · obtain ⟨⟨result, s₁⟩, hrun⟩ := Option.ne_none_iff_exists'.mp
      (hreturns ⟨command, param, hasParam⟩)
    have hR := n.stable_onlyEmits
    rcases hR.doAction (hR.emit locals depth) _ s s₁ result hrun with ⟨es, hes⟩
    refine ⟨if result then n.sendAck sAddr s₁ else n.sendNack sAddr s₁, ?_, ?_⟩
    · change n.act _ locals sAddr (received n.version packet) s = _
      rw [haction]
      simp only [act, hrun, Option.bind_eq_bind, Option.bind_some]
    · right
      rw [haction]
      refine ⟨not_false, ?_⟩
      cases result with
      | true =>
        refine ⟨[0x01#8], es, ?_, Or.inl (Or.inl rfl), hreceipt _ (Or.inl rfl)⟩
        rw [← hes]
        rfl
      | false =>
        refine ⟨[0x00#8], es, ?_, Or.inl (Or.inr rfl), hreceipt _ (Or.inr rfl)⟩
        rw [← hes]
        rfl
  · have hreplies := n.get_answers sAddr s locals (.ofByte (packet.getD 2 0)) param hasParam
    refine ⟨n.get locals sAddr (.ofByte (packet.getD 2 0)) param hasParam s, ?_, ?_⟩
    · change n.act _ locals sAddr (received n.version packet) s = _
      rw [hreceived]
      rfl
    · rw [hreceived]
      rcases hreplies with hsilent | ⟨hanswered, c, hc, hsent⟩
      · exact Or.inl hsilent
      · exact Or.inr ⟨hanswered, c, [], by simpa using hsent, hc.isReplyTo n packet hget rfl,
          hc.length_lt hfits⟩

theorem not_answersOnce (hsAddr : sAddr ≠ Mesh.broadcast) (hlong : 2 ≤ packet.length)
    (hsize : packet.length ≤ Mesh.maxPayload)
    (htype : (commandType (packet.getD 1 0)).AsksReply) (hfits : n.DescriptionsFit)
    (hreturns : ∀ call, n.doAction (n.emit locals depth) call s ≠ none)
    (hunknown : UnknownCommand n.version packet) :
    ¬ n.AnswersOnce locals depth sAddr packet s := by
  rintro ⟨s', c, es, hparse, hsent, _⟩
  have hsilent : Unanswered locals sAddr s (received n.version packet) :=
    (unanswered_received_iff n.version locals sAddr s packet).mpr
      ((needsNoAnswer_iff_unknown n.version packet locals s.db sAddr hsAddr hlong hsize
        htype).mpr hunknown)
  rcases n.parsePacket_sent locals depth sAddr packet s htype hfits hreturns with
    ⟨s'', hparse', ⟨_, hsent'⟩ | ⟨hanswered, _⟩⟩
  · rw [hparse, Option.some_inj] at hparse'
    have hlengths := congrArg List.length (hsent.symm.trans (hparse' ▸ hsent'))
    simp only [List.length_append, List.length_singleton] at hlengths
    omega
  · exact hanswered hsilent

/-- Every request from a unicast address is answered exactly once, apart from the unknown
commands. -/
theorem answersOnce_iff (hsAddr : sAddr ≠ Mesh.broadcast) (hlong : 2 ≤ packet.length)
    (hsize : packet.length ≤ Mesh.maxPayload)
    (htype : (commandType (packet.getD 1 0)).AsksReply) (hfits : n.DescriptionsFit)
    (hreturns : ∀ call, n.doAction (n.emit locals depth) call s ≠ none) :
    n.AnswersOnce locals depth sAddr packet s ↔ ¬ UnknownCommand n.version packet := by
  constructor
  · intro honce hunknown
    exact n.not_answersOnce locals depth sAddr packet s hsAddr hlong hsize htype hfits hreturns
      hunknown honce
  · intro hknown
    rcases n.parsePacket_sent locals depth sAddr packet s htype hfits hreturns with
      ⟨s', hparse, ⟨hsilent, _⟩ | ⟨_, c, es, hsent, hreply, hlength⟩⟩
    · rw [unanswered_received_iff, needsNoAnswer_iff_unknown n.version packet locals s.db sAddr
        hsAddr hlong hsize htype] at hsilent
      exact absurd hsilent hknown
    · have hmax : Mesh.maxPayload = 105 := rfl
      exact ⟨s', c, es, hparse, hsent, hreply, payload_send _ _ _ (by omega)⟩

theorem exampleNode_fits : (exampleNode blink).DescriptionsFit where
  id_le := by decide
  name_le := by decide
  action_le := by
    intro i a ha
    simp only [exampleNode, Option.ite_none_right_eq_some, Option.some.injEq] at ha
    rw [← ha.2]
    decide
  event_le := fun _ _ hdescription => absurd hdescription (Option.some_ne_none _).symm

theorem exampleNode_returns (call : ActionCall) :
    (exampleNode blink).doAction ((exampleNode blink).emit exampleLocals 0) call exampleState ≠
      none := by
  have hmute : (exampleNode blink).Mute := Pair.examplePair_mute 3#8 3#8 false
  rcases hmute.doAction ((exampleNode blink).emit exampleLocals 0) call exampleState with
    ⟨result, s', hrun, _⟩
  rw [hrun]
  exact Option.some_ne_none _

/-- A request for the name of the node. -/
theorem answersOnce_getName :
    (exampleNode blink).AnswersOnce exampleLocals 0 2 [3#8, 3#8, 13#8] exampleState ↔
      ¬ UnknownCommand protocolVersion [3#8, 3#8, 13#8] :=
  answersOnce_iff (exampleNode blink) exampleLocals 0 2 [3#8, 3#8, 13#8] exampleState (by decide)
    (by decide) (by decide) (by decide) exampleNode_fits exampleNode_returns

/-- A GET of command 5, which its switch has no case for, is not answered. -/
theorem not_answersOnce_get5 :
    ¬ ∀ (n : Node Unit) (locals : Locals) (depth : ℕ) (sAddr : Word) (packet : List Byte)
      (s : NodeState Unit), sAddr ≠ Mesh.broadcast → 2 ≤ packet.length →
      packet.length ≤ Mesh.maxPayload → (commandType (packet.getD 1 0)).AsksReply →
      n.DescriptionsFit → (∀ call, n.doAction (n.emit locals depth) call s ≠ none) →
      n.AnswersOnce locals depth sAddr packet s := by
  intro hall
  apply not_answersOnce (exampleNode blink) exampleLocals 0 2 [3#8, 3#8, 5#8] exampleState
    (by decide) (by decide) (by decide) (by decide) exampleNode_fits exampleNode_returns
  · have hcode : Command.ofByte 5#8 ∈ [.clear, .addEntry, .delEntry, .other] := by decide
    exact ⟨rfl, by decide, hcode⟩
  · exact hall _ _ _ _ _ _ (by decide) (by decide) (by decide) (by decide) exampleNode_fits
      exampleNode_returns

end Node

end Aquila.Protocol
