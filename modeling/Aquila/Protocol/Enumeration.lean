import Aquila.Protocol.Delivery
import Aquila.Protocol.Registration

/-! # Enumerating the actions and events

A hub asks for the number of actions and then for one after the other. The scan for the
`n`-th pointer that is not null gives the `n`-th registered slot, and the counter is the
number of them.
-/

namespace Aquila.Protocol
open Library SlotTable ProtocolDB

variable {α σ : Type}

namespace Registry

def listing (r : Registry α) (size : ℕ) : List (ℕ × α) :=
  (List.range size).filterMap (fun i => (r.slots i).map (fun a => (i, a)))

theorem map_fst_listing (r : Registry α) (size : ℕ) :
    (r.listing size).map Prod.fst = occupied r.active size := by
  rw [listing, occupied, List.map_filterMap, ← List.filterMap_eq_filter]
  apply List.filterMap_congr
  intro i _
  cases h : r.slots i <;> simp [active, h, Option.guard]

theorem length_listing (r : Registry α) (size : ℕ) :
    (r.listing size).length = rank r.active size := by
  rw [← length_occupied, ← map_fst_listing, List.length_map]

theorem mem_listing {r : Registry α} {size i : ℕ} {a : α} :
    (i, a) ∈ r.listing size ↔ i < size ∧ r.slots i = some a := by
  simp [listing]

end Registry

theorem nthPresent_eq (table : ℕ → Option α) (n left i cont : ℕ) (h : cont ≤ n) :
    nthPresent table n left i cont =
      ((List.range' i left).filterMap (fun j => (table j).map (fun a => (j, a))))[n - cont]? := by
  induction left generalizing i cont with
  | zero => rfl
  | succ left ih =>
    rw [nthPresent, List.range'_succ, List.filterMap_cons]
    cases htable : table i with
    | none => exact ih (i + 1) cont h
    | some a =>
      simp only [Option.map_some]
      by_cases hcont : cont = n
      · rw [if_pos hcont, hcont, Nat.sub_self]
        rfl
      · have hnext : n - cont = n - (cont + 1) + 1 := by omega
        rw [if_neg hcont, ih (i + 1) (cont + 1) (by omega), hnext, List.getElem?_cons_succ]

namespace Node

/-- What a node answers to the question for entry `k` of a listing. -/
def listed (command : Byte) (entry : Option (ℕ × CString)) : List Byte :=
  match entry with
  | some (i, description) => 0x1C#8 :: command :: BitVec.ofNat 8 i :: description
  | none => [0x00#8]

/-- The packet of that version is answered with one packet, made of the given command bytes. -/
def AnswersWith (n : Node σ) (packet command : List Byte) : Prop :=
  ∀ emit locals sAddr s, ∃ sent : Sent,
    n.parsePacket emit locals sAddr packet s = some { s with sent := s.sent ++ [sent] } ∧
      sent.message = ⟨sAddr, protocolEndpoint, protocolEndpoint, n.version :: command⟩ ∧
      sent.message.payload.length ≤ Mesh.maxPayload

/-- GET of the count and of every entry number enumerates a registry. -/
structure Enumerates (n : Node σ) (r : Registry CString) (size : ℕ)
    (countCommand listCommand : Byte) : Prop where
  counted : r.used.toNat = rank r.active size
  length_eq : (r.listing size).length = r.used.toNat
  slots_eq : (r.listing size).map Prod.fst = occupied r.active size
  mem_iff : ∀ i description, (i, description) ∈ r.listing size ↔
    i < size ∧ r.slots i = some description
  count : n.AnswersWith [n.version, 0x03#8, countCommand] [0x14#8, countCommand, r.used]
  entry : ∀ k : Byte, n.AnswersWith [n.version, 0x0B#8, listCommand, k]
    (listed listCommand (r.listing size)[k.toNat]?)

theorem answersWith_reply {n : Node σ} {packet command : List Byte}
    (hlength : command.length < Mesh.maxPayload)
    (h : ∀ emit locals sAddr s, n.parsePacket emit locals sAddr packet s =
      some (n.reply sAddr command s)) : n.AnswersWith packet command := by
  intro emit locals sAddr s
  have hmax : Mesh.maxPayload = 105 := rfl
  have hpayload := payload_send n.version sAddr command (by omega)
  refine ⟨send n.version sAddr command, h emit locals sAddr s, ?_, ?_⟩
  · change Mesh.Message.mk sAddr protocolEndpoint protocolEndpoint _ = _
    exact congrArg _ hpayload
  · rw [hpayload, List.length_cons]
    omega

variable (n : Node σ) (emit : Emission → NodeState σ → Option (NodeState σ)) (locals : Locals)
  (sAddr : Word) (s : NodeState σ)

theorem parsePacket_get (command k : Byte) (hasParam : Bool) :
    n.parsePacket emit locals sAddr (n.version :: (if hasParam then 0x0B#8 else 0x03#8) ::
        command :: if hasParam then [k] else []) s =
      some (n.get locals sAddr (.ofByte command) (if hasParam then k else 0) hasParam s) := by
  let control : Byte := if hasParam then 0x0B#8 else 0x03#8
  let packet := n.version :: control :: command :: if hasParam then [k] else []
  have hsize : packetSize packet = 3 + hasParam.toNat := by cases hasParam <;> rfl
  have hcontrol : packet.getD 1 0 = control := rfl
  have htype : commandType control = .get ∧ hasParamFlag control = hasParam := by
    cases hasParam <;> decide
  have hreceived : received n.version packet =
      .get (.ofByte command) (if hasParam then k else 0) hasParam := by
    rw [received_own n.version packet (by omega) rfl, hcontrol, htype.1, htype.2, hsize, parseGet,
      if_neg (lt_irrefl _)]
    cases hasParam with
    | true => rfl
    | false => rfl
  exact congrArg (fun request => n.act emit locals sAddr request s) hreceived

theorem sendDescription_eq (r : Registry CString) (size : ℕ)
    (hfits : ∀ i description, r.slots i = some description → description.length < 2 ^ 8)
    (command k : Byte) :
    n.sendDescription r.slots size command k sAddr s =
      n.reply sAddr (listed command (r.listing size)[k.toNat]?) s := by
  have hscan : nthPresent r.slots k.toNat size 0 0 = (r.listing size)[k.toNat]? := by
    rw [nthPresent_eq _ _ _ _ _ (Nat.zero_le _), Registry.listing, List.range_eq_range']
    rfl
  rw [sendDescription, hscan]
  by_cases hk : k.toNat < size
  · rw [if_pos hk]
    cases hentry : (r.listing size)[k.toNat]? with
    | none => rfl
    | some entry =>
      have hmem := Registry.mem_listing.mp (List.mem_of_getElem? hentry)
      have hlength := hfits entry.1 entry.2 hmem.2
      have hcopy : copyString entry.2 = entry.2 := by
        rw [copyString, BitVec.toNat_ofNat, Nat.mod_eq_of_lt hlength, List.take_length]
      change n.reply sAddr (0x1C#8 :: command :: BitVec.ofNat 8 entry.1 :: copyString entry.2) s = _
      rw [hcopy]
      rfl
  · have hle := rank_le r.active size
    rw [if_neg hk, List.getElem?_eq_none (by rw [Registry.length_listing]; omega)]
    rfl

variable {n}

/-- A counted registry with descriptions of at most 100 bytes is enumerated by the commands that
send its counter and its descriptions. -/
theorem enumerates {r : Registry CString} {size : ℕ} (hcounted : r.Counted size)
    (hfits : ∀ i description, r.slots i = some description → description.length ≤ 100)
    {countCommand listCommand : Byte}
    (hcount : ∀ locals sAddr s, n.get locals sAddr (.ofByte countCommand) 0 false s =
      n.reply sAddr [0x14#8, countCommand, r.used] s)
    (hlist : ∀ locals sAddr k s, n.get locals sAddr (.ofByte listCommand) k true s =
      n.sendDescription r.slots size listCommand k sAddr s) :
    n.Enumerates r size countCommand listCommand where
  counted := hcounted
  length_eq := (r.length_listing size).trans hcounted.symm
  slots_eq := r.map_fst_listing size
  mem_iff _ _ := Registry.mem_listing
  count := by
    have hlength : [0x14#8, countCommand, r.used].length < Mesh.maxPayload := by
      change 3 < 105
      decide
    apply answersWith_reply hlength
    intro emit locals sAddr s
    rw [← hcount locals sAddr s]
    exact parsePacket_get n emit locals sAddr s countCommand 0 false
  entry := by
    intro k
    have hmax : Mesh.maxPayload = 105 := rfl
    have hlong : ∀ i description, r.slots i = some description → description.length < 2 ^ 8 :=
      fun i description h => (hfits i description h).trans_lt (by decide)
    apply answersWith_reply
    · cases hentry : (r.listing size)[k.toNat]? with
      | none =>
        simp only [listed, List.length_cons, List.length_nil]
        omega
      | some entry =>
        have hmem := Registry.mem_listing.mp (List.mem_of_getElem? hentry)
        have hlength := hfits entry.1 entry.2 hmem.2
        simp only [listed, List.length_cons]
        omega
    · intro emit locals sAddr s
      rw [← sendDescription_eq n sAddr s r size hlong, ← hlist locals]
      exact parsePacket_get n emit locals sAddr s listCommand k true

/-! ### After any registrations -/

def actionDescriptions (n : Node σ) : Registry CString :=
  ⟨n.nActions, fun i => (n.actions i).map Action.description⟩

theorem Counted.actionDescriptions {n : Node σ} (h : n.Counted) :
    n.actionDescriptions.Counted maxActions := by
  have hactive : n.actionDescriptions.active = n.actionRegistry.active := by
    funext i
    exact Option.isSome_map
  rw [Registry.Counted, hactive]
  exact h.actions

structure Short (n : Node σ) : Prop where
  actions : ∀ i action, n.actions i = some action → action.description.length ≤ 100
  events : ∀ i description, n.events i = some description → description.length ≤ 100

end Node

def Registration.Short : Registration σ → Prop
  | .setAction _ action | .addAction action => action.description.length ≤ 100
  | .setEvent _ description | .addEvent description => description.length ≤ 100

theorem Registry.forall_set {r : Registry α} {P : α → Prop} (h : ∀ i a, r.slots i = some a → P a)
    (size : ℕ) (n : Byte) {a : α} (ha : P a) : ∀ i b, (r.set size n a).slots i = some b → P b := by
  intro i b hb
  by_cases hn : n.toNat < size
  · rw [slots_set r a hn, Function.update_apply] at hb
    split at hb
    case isTrue =>
      cases hb
      exact ha
    case isFalse => exact h i b hb
  · rw [Registry.set, if_neg hn] at hb
    exact h i b hb

namespace Node

theorem Short.register {n : Node σ} (h : n.Short) {l : Registration σ} (hl : l.Short) :
    (n.register l).Short := by
  cases l with
  | setAction i action =>
    exact ⟨Registry.forall_set (r := n.actionRegistry) h.actions maxActions i hl, h.events⟩
  | addAction action =>
    exact ⟨Registry.forall_set (r := n.actionRegistry) h.actions maxActions n.nActions hl, h.events⟩
  | setEvent i description =>
    exact ⟨h.actions, Registry.forall_set (r := n.eventRegistry) h.events maxEvents i hl⟩
  | addEvent description =>
    exact ⟨h.actions, Registry.forall_set (r := n.eventRegistry) h.events maxEvents n.nEvents hl⟩

theorem run_counted_short (n : Node σ) (euiAddress : EUIAddress) (ls : List (Registration σ))
    (hls : ∀ l ∈ ls, l.Short) :
    (run register (n.begin euiAddress) ls).Counted ∧
      (run register (n.begin euiAddress) ls).Short := by
  have hbegin : (n.begin euiAddress).Short := by
    constructor
    · intro i action h
      cases h
    · intro i description h
      cases h
  exact run_invariant_of (I := fun n : Node σ => n.Counted ∧ n.Short)
    (K := Registration.Short)
    (fun _ l hl h => ⟨h.1.register l, h.2.register hl⟩) ⟨n.begin_counted euiAddress, hbegin⟩ ls hls

/-- After `begin` and any registrations, the counters are the numbers of used slots and GET
enumerates the actions and the events, each slot once and in ascending order. -/
theorem run_enumerates (n : Node σ) (euiAddress : EUIAddress) (ls : List (Registration σ))
    (hls : ∀ l ∈ ls, l.Short) :
    let n' := run register (n.begin euiAddress) ls
    n'.Enumerates n'.actionDescriptions maxActions 0#8 11#8 ∧
      n'.Enumerates n'.eventRegistry maxEvents 1#8 12#8 := by
  intro n'
  rcases n.run_counted_short euiAddress ls hls with ⟨hcounted, hshort⟩
  constructor
  · apply enumerates hcounted.actionDescriptions
    · intro i description h
      rcases Option.map_eq_some_iff.mp h with ⟨action, haction, rfl⟩
      exact hshort.actions i action haction
    · exact fun _ _ _ => rfl
    · exact fun _ _ _ _ => rfl
  · apply enumerates hcounted.events hshort.events
    · exact fun _ _ _ => rfl
    · exact fun _ _ _ _ => rfl

/-- An action and an event above gaps. -/
theorem run_enumerates_gaps :
    let n' := run register (plainNode.begin (fun _ => 0))
      [.setAction 7 ⟨[0x61#8], fun _ _ vars => .done true vars⟩, .setEvent 99 [0x62#8]]
    n'.Enumerates n'.actionDescriptions maxActions 0#8 11#8 ∧
      n'.Enumerates n'.eventRegistry maxEvents 1#8 12#8 :=
  run_enumerates plainNode (fun _ => 0)
    [.setAction 7 ⟨[0x61#8], fun _ _ vars => .done true vars⟩, .setEvent 99 [0x62#8]] (by
      simp [Registration.Short])

end Node

end Aquila.Protocol
