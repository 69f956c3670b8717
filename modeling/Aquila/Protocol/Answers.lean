import Aquila.Protocol.Replies

/-! # What each request is answered with

GET is answered with POST or NACK, every other request with ACK or NACK, and some not at
all. User code is taken to send nothing.
-/

namespace Aquila.Protocol
open Library ProtocolDB

variable {σ : Type}

/-- User code that never emits an event. -/
structure Node.Mute (n : Node σ) : Prop where
  actions : ∀ call function, n.actionFunction call = some function →
    ∀ vars, (function vars).silent ≠ none
  callbacks : ∀ sub ∈ n.onSubs, ∀ o function, Node.subscribed sub o = some function →
    ∀ vars, (function vars).silent ≠ none

def Request.Plain : Request → Prop
  | .action _ _ _ => False
  | .get _ _ _ => False
  | .event _ _ _ _ _ => False
  | _ => True

def Node.Unanswered (locals : Locals) (address : Word) (s : NodeState σ) : Request → Prop
  | .ignore => True
  | .event _ _ _ _ _ => True
  | .get command param hasParam =>
    match command with
    | .nEntries => address = Mesh.broadcast
    | .entry => address = Mesh.broadcast ∧ hasParam = true ∧
        (s.db.getEntry locals.header locals.entry param).status = .ok
    | .clear => True
    | .addEntry => True
    | .delEntry => True
    | .other => True
    | _ => False
  | _ => False

/-- Strings that fit a packet behind the bytes that each of them is sent with. -/
structure Node.DescriptionsFit (n : Node σ) : Prop where
  id_le : 3 + n.id.length ≤ Mesh.maxPayload
  name_le : 3 + n.name.length ≤ Mesh.maxPayload
  action_le : ∀ i a, n.actions i = some a → 4 + a.description.length ≤ Mesh.maxPayload
  event_le : ∀ i description, n.events i = some description →
    4 + description.length ≤ Mesh.maxPayload

theorem length_copyString_le (s : CString) : (copyString s).length ≤ s.length :=
  List.length_take_le' _ _

theorem nthPresent_some {α : Type} (table : ℕ → Option α) (n left i cont : ℕ) {j : ℕ} {a : α}
    (h : nthPresent table n left i cont = some (j, a)) : table j = some a := by
  induction left generalizing i cont with
  | zero => cases h
  | succ left ih =>
    rw [nthPresent] at h
    cases hi : table i with
    | none =>
      simp only [hi] at h
      exact ih (i + 1) cont h
    | some b =>
      simp only [hi] at h
      split at h
      case isTrue =>
        cases h
        exact hi
      case isFalse => exact ih (i + 1) (cont + 1) h

def IsReceipt (command : List Byte) : Prop := command = [0x01#8] ∨ command = [0x00#8]

def IsPost (command : List Byte) : Prop :=
  ∃ control rest, command = control :: rest ∧ commandType control = .post

namespace Node

/-- Between the two states, one packet of the kind was sent to the address, or none if and
only if the node was to be silent. -/
def Replies (n : Node σ) (address : Word) (kind : List Byte → Prop) (silent : Prop)
    (s s' : NodeState σ) : Prop :=
  (silent ∧ s'.sent = s.sent) ∨
    (¬ silent ∧ ∃ c, kind c ∧ s'.sent = s.sent ++ [send n.version address c])

section
variable (n : Node σ) (address : Word) (s : NodeState σ)

theorem replies_reply {kind : List Byte → Prop} {silent : Prop} (packet : List Byte)
    {s' : NodeState σ} (h : s'.sent = s.sent) (hkind : kind packet) (hsilent : ¬ silent) :
    n.Replies address kind silent s (n.reply address packet s') := by
  refine Or.inr ⟨hsilent, packet, hkind, ?_⟩
  rw [reply, h]

theorem Replies.mono {kind kind' : List Byte → Prop} {silent silent' : Prop} {s' : NodeState σ}
    (h : n.Replies address kind silent s s') (hkind : ∀ c, kind c → kind' c)
    (hsilent : silent ↔ silent') : n.Replies address kind' silent' s s' := by
  rcases h with ⟨hs, hsent⟩ | ⟨hs, c, hc, hsent⟩
  · exact Or.inl ⟨hsilent.mp hs, hsent⟩
  · exact Or.inr ⟨fun hs' => hs (hsilent.mpr hs'), c, hkind c hc, hsent⟩

/-- An ACK or NACK after a change that sends nothing. -/
theorem replies_receipt (ok : Prop) [Decidable ok] {s' : NodeState σ} (h : s'.sent = s.sent) :
    n.Replies address IsReceipt False s
      (if ok then n.sendAck address s' else n.sendNack address s') := by
  split
  case isTrue => exact n.replies_reply address s _ h (Or.inl rfl) not_false
  case isFalse => exact n.replies_reply address s _ h (Or.inr rfl) not_false

def IsAnswer (command : List Byte) : Prop := IsReceipt command ∨ IsPost command

theorem IsAnswer.exists_cons {c : List Byte} (h : IsAnswer c) :
    ∃ control rest, c = control :: rest := by
  rcases h with (rfl | rfl) | ⟨control, rest, rfl, _⟩
  · exact ⟨_, _, rfl⟩
  · exact ⟨_, _, rfl⟩
  · exact ⟨control, rest, rfl⟩

/-- A NACK, or a POST of what the command asks for, which fits a packet if the strings do. -/
structure IsAnswerTo (command : Command) (c : List Byte) : Prop where
  kind : IsReceipt c ∨
    ∃ control code rest, c = control :: code :: rest ∧ commandType control = .post ∧
      Command.ofByte code = command
  length_lt : n.DescriptionsFit → c.length < Mesh.maxPayload

theorem IsAnswerTo.isAnswer {command : Command} {c : List Byte} (h : n.IsAnswerTo command c) :
    IsAnswer c := by
  rcases h.kind with hreceipt | ⟨control, code, rest, rfl, hcontrol, _⟩
  · exact Or.inl hreceipt
  · exact Or.inr ⟨control, code :: rest, rfl, hcontrol⟩

theorem isAnswerTo_post {command : Command} {control code : Byte} {rest : List Byte}
    (hcontrol : commandType control = .post) (hcode : Command.ofByte code = command)
    (hlength : n.DescriptionsFit → rest.length + 2 < Mesh.maxPayload) :
    n.IsAnswerTo command (control :: code :: rest) :=
  ⟨Or.inr ⟨control, code, rest, rfl, hcontrol, hcode⟩, hlength⟩

theorem sendNack_answers (command : Command) :
    n.Replies address (n.IsAnswerTo command) False s (n.sendNack address s) :=
  n.replies_reply address s _ rfl ⟨Or.inl (Or.inr rfl), fun _ => by decide⟩ not_false

theorem sendDescription_answers (table : ℕ → Option CString) (size : ℕ) (command : Command)
    (code k : Byte) (hcode : Command.ofByte code = command)
    (hfit : n.DescriptionsFit → ∀ i description, table i = some description →
      4 + description.length ≤ Mesh.maxPayload) :
    n.Replies address (n.IsAnswerTo command) False s
      (n.sendDescription table size code k address s) := by
  rw [sendDescription]
  split
  case isTrue =>
    split
    case h_1 i description hpresent =>
      apply n.replies_reply address s _ rfl _ not_false
      apply n.isAnswerTo_post rfl hcode
      intro hfits
      have hlength := hfit hfits i description (nthPresent_some table _ _ _ _ hpresent)
      have hcopy := length_copyString_le description
      rw [List.length_cons]
      omega
    case h_2 => exact n.sendNack_answers address s command
  case isFalse => exact n.sendNack_answers address s command

theorem sendString_answers (command : Command) (code : Byte) (string : CString)
    (hcode : Command.ofByte code = command)
    (hfit : n.DescriptionsFit → 3 + string.length ≤ Mesh.maxPayload) :
    n.Replies address (n.IsAnswerTo command) False s
      (n.reply address (0x14#8 :: code :: copyString string) s) := by
  apply n.replies_reply address s _ rfl _ not_false
  apply n.isAnswerTo_post rfl hcode
  intro hfits
  have hlength := hfit hfits
  have hcopy := length_copyString_le string
  omega

theorem sendNEntries_answers (locals : Locals) :
    n.Replies address (n.IsAnswerTo .nEntries) (address = Mesh.broadcast) s
      (n.sendNEntries locals address s) := by
  rw [sendNEntries]
  split
  case isTrue h =>
    have hcode : Command.ofByte 4#8 = .nEntries := rfl
    apply n.replies_reply address s _ rfl _ h
    apply n.isAnswerTo_post rfl hcode
    intro _
    rw [List.length_singleton]
    decide
  case isFalse h => exact Or.inl ⟨not_not.mp h, rfl⟩

theorem sendEntry_answers (locals : Locals) (nEntry : Byte) :
    n.Replies address (n.IsAnswerTo .entry) (address = Mesh.broadcast ∧
        (s.db.getEntry locals.header locals.entry nEntry).status = .ok) s
      (n.sendEntry locals nEntry address s) := by
  rw [sendEntry]
  split
  case isTrue hok =>
    split
    case isTrue h =>
      have hcode : Command.ofByte 6#8 = .entry := rfl
      apply n.replies_reply address s _ rfl _ (fun h' => h h'.1)
      apply n.isAnswerTo_post rfl hcode
      intro _
      rw [List.length_cons, Entry.length_toBytes]
      decide
    case isFalse h => exact Or.inl ⟨⟨not_not.mp h, hok⟩, rfl⟩
  case isFalse hok =>
    exact (n.sendNack_answers address s .entry).mono _ _ _ (fun _ hc => hc)
      (iff_of_false not_false (fun h => hok h.2))

/-- GET is answered with a POST of its command or NACK, or is one of the requests without a
reply. -/
theorem get_answers (locals : Locals) (command : Command) (param : Byte) (hasParam : Bool) :
    n.Replies address (n.IsAnswerTo command)
      (Unanswered locals address s (.get command param hasParam)) s
      (n.get locals address command param hasParam s) := by
  have hshort (code : Byte) (rest : List Byte) (hcode : Command.ofByte code = command)
      (hlength : rest.length ≤ 8) :
      n.Replies address (n.IsAnswerTo command) False s
        (n.reply address (0x14#8 :: code :: rest) s) := by
    apply n.replies_reply address s _ rfl _ not_false
    apply n.isAnswerTo_post rfl hcode
    intro _
    have hmax : Mesh.maxPayload = 105 := rfl
    omega
  cases command with
  | nActions => exact hshort 0#8 [n.nActions] rfl (by simp)
  | nEvents => exact hshort 1#8 [n.nEvents] rfl (by simp)
  | size => exact hshort 3#8 [BitVec.ofNat 8 maxEntries] rfl (by simp)
  | eui => exact hshort 14#8 (List.ofFn n.euiAddress) rfl (by rw [List.length_ofFn])
  | id => exact n.sendString_answers address s .id 2#8 n.id rfl (fun hfits => hfits.id_le)
  | name => exact n.sendString_answers address s .name 13#8 n.name rfl (fun hfits => hfits.name_le)
  | nEntries => exact n.sendNEntries_answers address s locals
  | entry =>
    cases hasParam with
    | true =>
      exact (n.sendEntry_answers address s locals param).mono _ _ _ (fun _ hc => hc)
        (by simp [Unanswered])
    | false =>
      exact (n.sendNack_answers address s .entry).mono _ _ _ (fun _ hc => hc)
        (by simp [Unanswered])
  | action =>
    cases hasParam with
    | true =>
      apply n.sendDescription_answers address s _ _ .action 11#8 param rfl
      intro hfits i description hdescription
      rcases Option.map_eq_some_iff.mp hdescription with ⟨action, haction, rfl⟩
      exact hfits.action_le i action haction
    | false => exact n.sendNack_answers address s .action
  | event =>
    cases hasParam with
    | true =>
      apply n.sendDescription_answers address s _ _ .event 12#8 param rfl
      exact fun hfits => hfits.event_le
    | false => exact n.sendNack_answers address s .event
  | clear => exact Or.inl ⟨trivial, rfl⟩
  | addEntry => exact Or.inl ⟨trivial, rfl⟩
  | delEntry => exact Or.inl ⟨trivial, rfl⟩
  | other => exact Or.inl ⟨trivial, rfl⟩

theorem get_replies (locals : Locals) (command : Command) (param : Byte) (hasParam : Bool) :
    n.Replies address IsAnswer (Unanswered locals address s (.get command param hasParam)) s
      (n.get locals address command param hasParam s) :=
  (n.get_answers address s locals command param hasParam).mono _ _ _
    (fun _ hc => hc.isAnswer) Iff.rfl

end

/-! ### User code that emits nothing -/

variable (emit : Emission → NodeState σ → Option (NodeState σ))

theorem run_silent (p : Program σ) (hp : p.silent ≠ none) (s : NodeState σ) :
    ∃ result s', p.run emit s = some (result, s') ∧ s'.sent = s.sent := by
  cases p with
  | done result vars => exact ⟨result, _, rfl, rfl⟩
  | emit e vars next => exact absurd rfl hp

theorem Mute.doAction {n : Node σ} (h : n.Mute) (call : ActionCall) (s : NodeState σ) :
    ∃ result s', n.doAction emit call s = some (result, s') ∧ s'.sent = s.sent := by
  rw [Node.doAction]
  cases hfunction : n.actionFunction call with
  | none => exact ⟨false, s, rfl, rfl⟩
  | some function => exact run_silent emit _ (h.actions call function hfunction s.vars) s

theorem Mute.checkLocalEvent {n : Node σ} (h : n.Mute) (o : Occurrence)
    (subs : List (OnSubscription σ)) (hsubs : ∀ sub ∈ subs, sub ∈ n.onSubs) (s : NodeState σ) :
    ∃ s', Node.checkLocalEvent emit o subs s = some s' ∧ s'.sent = s.sent := by
  induction subs generalizing s with
  | nil => exact ⟨s, rfl, rfl⟩
  | cons sub subs ih =>
    have hrest := ih (fun sub' hsub => hsubs sub' (List.mem_cons_of_mem _ hsub))
    cases hsub : subscribed sub o with
    | none =>
      simp only [Node.checkLocalEvent, hsub]
      exact hrest s
    | some function =>
      obtain ⟨result, s₁, hrun, hsent⟩ := run_silent emit (function s.vars)
        (h.callbacks sub (hsubs sub List.mem_cons_self) o function hsub s.vars) s
      rcases hrest s₁ with ⟨s', hloop, hsent'⟩
      refine ⟨s', ?_, hsent'.trans hsent⟩
      simp only [Node.checkLocalEvent, hsub, hrun, Option.bind_eq_bind, Option.bind_some, hloop]

theorem Mute.checkEntries {n : Node σ} (h : n.Mute) (header : DBHeader) (o : Occurrence)
    (left : ℕ) (entry : Entry) (s : NodeState σ) :
    ∃ calls s', n.checkEntries emit header o left entry s = some (calls, s') ∧
      s'.sent = s.sent := by
  induction left generalizing entry s with
  | zero => exact ⟨[], s, rfl, rfl⟩
  | succ left ih =>
    let next := s.db.iteratorGetNextEntry header entry
    let s₀ : NodeState σ := { s with db := next.2.2 }
    by_cases hmatch : next.1 = .ok ∧ Matches o (next.2.1.getD entry)
    · obtain ⟨result, s₁, hrun, hsent⟩ :=
        h.doAction emit (actionCall o (next.2.1.getD entry)) s₀
      rcases ih (next.2.1.getD entry) s₁ with ⟨calls, s', hloop, hsent'⟩
      refine ⟨actionCall o (next.2.1.getD entry) :: calls, s', ?_, hsent'.trans hsent⟩
      simp only [Node.checkEntries]
      rw [if_pos hmatch]
      simp only [next, s₀] at hrun hloop
      simp only [hrun, Option.bind_eq_bind, Option.bind_some, hloop]
      rfl
    · rcases ih (next.2.1.getD entry) s₀ with ⟨calls, s', hloop, hsent⟩
      refine ⟨calls, s', ?_, hsent⟩
      simp only [Node.checkEntries]
      rw [if_neg hmatch]
      exact hloop

theorem Mute.checkEvent {n : Node σ} (h : n.Mute) (locals : Locals) (o : Occurrence)
    (s : NodeState σ) :
    ∃ calls s', n.checkEvent emit locals o s = some (calls, s') ∧ s'.sent = s.sent := by
  rcases h.checkLocalEvent emit o n.onSubs (fun _ hsub => hsub) s with ⟨s₁, hlocal, hsent⟩
  obtain ⟨calls, s', hloop, hsent'⟩ := h.checkEntries emit locals.header o _ locals.entry
    { s₁ with db := s₁.db.iteratorBegin }
  refine ⟨calls, s', ?_, hsent'.trans hsent⟩
  simp only [Node.checkEvent, hlocal, Option.bind_eq_bind, Option.bind_some]
  exact hloop

/-- Requests that neither read anything nor run user code are answered with ACK or NACK, or not
at all. -/
theorem plain_receipt (n : Node σ) (locals : Locals) (address : Word) (request : Request)
    (s : NodeState σ) (hplain : request.Plain) :
    ∃ s', n.act emit locals address request s = some s' ∧
      n.Replies address IsReceipt (Unanswered locals address s request) s s' := by
  cases request with
  | ignore => exact ⟨s, rfl, Or.inl ⟨trivial, rfl⟩⟩
  | reject => exact ⟨_, rfl, n.replies_reply address s _ rfl (Or.inr rfl) not_false⟩
  | clear => exact ⟨_, rfl, n.replies_reply address s _ rfl (Or.inl rfl) not_false⟩
  | setEntry param entry => exact ⟨_, rfl, n.replies_receipt address s _ rfl⟩
  | addEntry entry => exact ⟨_, rfl, n.replies_receipt address s _ rfl⟩
  | delEntry param => exact ⟨_, rfl, n.replies_receipt address s _ rfl⟩
  | action command param hasParam => exact hplain.elim
  | get command param hasParam => exact hplain.elim
  | event address event param hasParam eName => exact hplain.elim

theorem Mute.act_receipt {n : Node σ} (h : n.Mute) (locals : Locals) (address : Word)
    (request : Request) (s : NodeState σ)
    (hget : ∀ command param hasParam, request ≠ .get command param hasParam) :
    ∃ s', n.act emit locals address request s = some s' ∧
      n.Replies address IsReceipt (Unanswered locals address s request) s s' := by
  cases request with
  | action command param hasParam =>
    rcases h.doAction emit ⟨command, param, hasParam⟩ s with ⟨result, s₁, hrun, hsent⟩
    refine ⟨if result then n.sendAck address s₁ else n.sendNack address s₁, ?_,
      n.replies_receipt address s (result = true) hsent⟩
    simp only [act, hrun, Option.bind_eq_bind, Option.bind_some]
  | get command param hasParam => exact absurd rfl (hget command param hasParam)
  | event euiAddress event param hasParam eName =>
    obtain ⟨calls, s', hcheck, hsent⟩ := h.checkEvent emit locals
      ⟨euiAddress, event, param, hasParam, some eName, address⟩ s
    refine ⟨s', ?_, Or.inl ⟨trivial, hsent⟩⟩
    simp only [act, hcheck, Option.bind_eq_bind, Option.bind_some]
  | _ => exact n.plain_receipt emit locals address _ s trivial

theorem Mute.act_replies {n : Node σ} (h : n.Mute) (locals : Locals) (address : Word)
    (request : Request) (s : NodeState σ) :
    ∃ s', n.act emit locals address request s = some s' ∧
      n.Replies address IsAnswer (Unanswered locals address s request) s s' := by
  by_cases hget : ∃ command param hasParam, request = .get command param hasParam
  · rcases hget with ⟨command, param, hasParam, rfl⟩
    exact ⟨_, rfl, n.get_replies address s locals command param hasParam⟩
  · push Not at hget
    rcases h.act_receipt emit locals address request s hget with ⟨s', hact, hreplies⟩
    exact ⟨s', hact, hreplies.mono _ _ _ (fun _ hc => Or.inl hc) Iff.rfl⟩

end Node

end Aquila.Protocol
