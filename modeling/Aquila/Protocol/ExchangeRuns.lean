import Aquila.Protocol.Exchange
import Aquila.Protocol.NestedEvents

/-! # Exchanges that end

Between nodes of one version a reply is never a GET, so it is answered with ACK or NACK
at most, and that is ignored. Between nodes of different versions every reply is answered
with NACK.
-/

namespace Aquila.Protocol
open Library ProtocolDB

variable {σ : Type} (p : Pair σ) (depth : ℕ)

namespace Pair

/-- The one packet in flight is delivered and answered with at most one reply. -/
theorem deliver_replies (locals : Locals) (states : Bool → NodeState σ) (side : Bool)
    (packet : List Byte) (kind : List Byte → Prop) (silent : Prop) (s' : NodeState σ)
    (hact : (p.nodes side).act ((p.nodes side).emit locals depth) locals (p.addresses (!side))
      (received (p.nodes side).version packet) (states side) = some s')
    (hreplies : (p.nodes side).Replies (p.addresses (!side)) kind silent (states side) s') :
    ∃ x', p.deliver depth locals ⟨states, [(side, packet)]⟩ = some x' ∧
      ((silent ∧ x'.flight = []) ∨
        (¬ silent ∧ ∃ c, kind c ∧ x'.flight = [(!side, wire (p.nodes side).version c)])) := by
  have hdeliver : p.deliver depth locals ⟨states, [(side, packet)]⟩ =
      some ⟨Function.update states side s', (s'.sent.drop (states side).sent.length).map
        (fun reply => (!side, reply.message.payload))⟩ := by
    simp only [deliver, Node.parsePacket]
    exact congrArg (· >>= _) hact
  refine ⟨_, hdeliver, ?_⟩
  rcases hreplies with ⟨hsilent, hsent⟩ | ⟨hsilent, c, hc, hsent⟩
  · refine Or.inl ⟨hsilent, ?_⟩
    dsimp only
    rw [hsent, List.drop_length]
    rfl
  · refine Or.inr ⟨hsilent, c, hc, ?_⟩
    dsimp only
    rw [hsent, List.drop_left]
    rfl

/-- What is asked of an exchange: it ends, and receipts stay unanswered. -/
def Settles (locals : ℕ → Locals) (x : Exchange σ) : Prop :=
  p.Finite depth locals x ∧ p.ReceiptsUnanswered depth locals x

theorem deliver_nil (locals : Locals) (x : Exchange σ) (h : x.flight = []) :
    p.deliver depth locals x = some x := by
  rw [deliver]
  rw [h]

theorem deliveries_nil (count : ℕ) (locals : ℕ → Locals) (x : Exchange σ) (h : x.flight = []) :
    p.deliveries depth count locals x = some x :=
  tryRun_stable (fun locals => p.deliver_nil depth locals x h) count locals

theorem settles_nil (locals : ℕ → Locals) (x : Exchange σ) (h : x.flight = []) :
    p.Settles depth locals x := by
  constructor
  · exact ⟨0, x, rfl, h⟩
  · intro count x' side packet flight x'' hx' hflight
    rw [p.deliveries_nil depth count locals x h, Option.some_inj] at hx'
    rw [← hx', h] at hflight
    exact absurd hflight (List.cons_ne_nil _ _).symm

theorem settles_cons (locals : ℕ → Locals) (x x₁ : Exchange σ)
    (hdeliver : p.deliver depth (locals 0) x = some x₁)
    (hreceipt : ∀ side packet flight, x.flight = (side, packet) :: flight → Receipt packet →
      x₁.flight = flight)
    (h : p.Settles depth (fun i => locals (i + 1)) x₁) : p.Settles depth locals x := by
  rcases h with ⟨⟨count, x', hrun, hflight⟩, hrest⟩
  constructor
  · refine ⟨count + 1, x', ?_, hflight⟩
    rw [deliveries, tryRun_succ hdeliver]
    exact hrun
  · intro count y side packet flight y' hy hhead hpacket hy'
    cases count with
    | zero =>
      cases hy
      rw [hdeliver, Option.some_inj] at hy'
      rw [← hy']
      exact hreceipt side packet flight hhead hpacket
    | succ count =>
      rw [deliveries, tryRun_succ hdeliver] at hy
      exact hrest count y side packet flight y' hy hhead hpacket hy'

variable {p}

theorem settles_unanswered (hmute : ∀ side, (p.nodes side).Mute) (locals : ℕ → Locals)
    (states : Bool → NodeState σ) (side : Bool) (packet : List Byte)
    (h : NeedsNoAnswer (p.nodes side).version (locals 0) (p.addresses (!side))
      (states side).db packet) : p.Settles depth locals ⟨states, [(side, packet)]⟩ := by
  obtain ⟨s', hact, hreplies⟩ := (hmute side).act_replies
    ((p.nodes side).emit (locals 0) depth) (locals 0) (p.addresses (!side))
    (received (p.nodes side).version packet) (states side)
  obtain ⟨x', hdeliver, hflight⟩ := p.deliver_replies depth (locals 0) states side packet _ _
    s' hact hreplies
  rcases hflight with ⟨_, hflight⟩ | ⟨hanswered, _⟩
  · refine p.settles_cons depth locals _ x' hdeliver ?_ (p.settles_nil depth _ x' hflight)
    intro side' packet' flight hhead _
    rw [hflight]
    exact (List.cons.inj hhead).2
  · exact absurd ((unanswered_received_iff _ _ _ _ _).mpr h) hanswered

theorem settles_receipt (hmute : ∀ side, (p.nodes side).Mute) (locals : ℕ → Locals)
    (states : Bool → NodeState σ) (side : Bool) (packet : List Byte) (hreceipt : Receipt packet)
    (hversion : packet.getD 0 0 = (p.nodes side).version) :
    p.Settles depth locals ⟨states, [(side, packet)]⟩ := by
  apply settles_unanswered depth hmute
  refine ⟨hreceipt.1, hversion, ?_⟩
  rcases hreceipt.2 with htype | htype
  · rw [htype]
    trivial
  · rw [htype]
    trivial

theorem settles_answer (hmute : ∀ side, (p.nodes side).Mute) (locals : ℕ → Locals)
    (states : Bool → NodeState σ) (side : Bool) (version : Byte)
    (hversion : ∀ side, (p.nodes side).version = version) (c : List Byte)
    (hc : Node.IsAnswer c) :
    p.Settles depth locals ⟨states, [(side, wire version c)]⟩ := by
  by_cases hreceipt : Receipt (wire version c)
  case pos =>
    rcases hc.exists_cons with ⟨control, rest, rfl⟩
    apply settles_receipt depth hmute locals states side _ hreceipt
    rw [hversion]
    exact (wire_getD version control rest hreceipt.1).1
  case neg =>
    obtain ⟨s', hact, hreplies⟩ := (hmute side).act_receipt
      ((p.nodes side).emit (locals 0) depth) (locals 0) (p.addresses (!side))
      (received version (wire version c)) (states side) (received_answer_ne_get version c hc)
    rw [← hversion side] at hact
    obtain ⟨x', hdeliver, hflight⟩ := p.deliver_replies depth (locals 0) states side _ _ _
      s' hact hreplies
    rw [hversion side] at hdeliver
    apply p.settles_cons depth locals _ x' hdeliver
    · intro side' packet flight hhead hpacket
      cases hhead
      exact absurd hpacket hreceipt
    · rcases hflight with ⟨_, hflight⟩ | ⟨_, c', hc', hflight⟩
      · exact p.settles_nil depth _ x' hflight
      · cases x' with
        | mk states' flight =>
          cases hflight
          rcases receipt_wire (p.nodes side).version c' hc' with ⟨hpacket, hown⟩
          apply settles_receipt depth hmute _ states' _ _ hpacket
          rw [hown, hversion, hversion]

/-- A first packet that is no receipt, between nodes of one version. -/
theorem settles_start (hmute : ∀ side, (p.nodes side).Mute) (locals : ℕ → Locals)
    (states : Bool → NodeState σ) (packet : List Byte)
    (hversion : (p.nodes false).version = (p.nodes true).version) (hpacket : ¬ Receipt packet) :
    p.Settles depth locals (start states packet) := by
  have hversions : ∀ side, (p.nodes side).version = (p.nodes false).version := by
    intro side
    cases side with
    | false => rfl
    | true => exact hversion.symm
  obtain ⟨s', hact, hreplies⟩ := (hmute false).act_replies
    ((p.nodes false).emit (locals 0) depth) (locals 0) (p.addresses true)
    (received (p.nodes false).version packet) (states false)
  obtain ⟨x', hdeliver, hflight⟩ := p.deliver_replies depth (locals 0) states false packet _ _
    s' hact hreplies
  apply p.settles_cons depth locals _ x' hdeliver
  · intro side packet' flight hhead hreceipt
    cases hhead
    exact absurd hreceipt hpacket
  · rcases hflight with ⟨_, hflight⟩ | ⟨_, c, hc, hflight⟩
    · exact p.settles_nil depth _ x' hflight
    · cases x' with
      | mk states' flight =>
        cases hflight
        exact settles_answer depth hmute _ states' true _ hversions c hc

/-! ### Nodes of different versions -/

variable (p)

/-- One reply is in flight, to the node that did not send it. -/
def Replying (x : Exchange σ) : Prop :=
  ∃ side c, Node.IsAnswer c ∧ x.flight = [(side, wire (p.nodes (!side)).version c)]

variable {p}

theorem Replying.deliver (hmute : ∀ side, (p.nodes side).Mute)
    (hversion : (p.nodes false).version ≠ (p.nodes true).version) (locals : Locals)
    (x : Exchange σ) (h : p.Replying x) :
    ∃ x', p.deliver depth locals x = some x' ∧ p.Replying x' := by
  rcases h with ⟨side, c, hc, hflight⟩
  have hside : (p.nodes (!side)).version ≠ (p.nodes side).version := by
    cases side with
    | false => exact hversion.symm
    | true => exact hversion
  cases x with
  | mk states flight =>
    cases hflight
    obtain ⟨s', hact, hreplies⟩ := (hmute side).act_replies
      ((p.nodes side).emit locals depth) locals (p.addresses (!side)) .reject (states side)
    rw [← received_mismatch _ _ c hc hside] at hact
    obtain ⟨x', hdeliver, hflight⟩ := p.deliver_replies depth locals states side _ _ _
      s' hact hreplies
    refine ⟨x', hdeliver, ?_⟩
    rcases hflight with ⟨hsilent, _⟩ | ⟨_, c', hc', hflight⟩
    · exact hsilent.elim
    · refine ⟨!side, c', hc', ?_⟩
      rw [Bool.not_not]
      exact hflight

/-- Rejections are rejected in turn, however long the exchange has been going on. -/
theorem Replying.deliveries (hmute : ∀ side, (p.nodes side).Mute)
    (hversion : (p.nodes false).version ≠ (p.nodes true).version) (count : ℕ)
    (locals : ℕ → Locals) (x : Exchange σ) (h : p.Replying x) :
    ∃ x', p.deliveries depth count locals x = some x' ∧ p.Replying x' :=
  tryRun_invariant (fun locals y hy => Replying.deliver depth hmute hversion locals y hy) h count
    locals

theorem Replying.not_finite (hmute : ∀ side, (p.nodes side).Mute)
    (hversion : (p.nodes false).version ≠ (p.nodes true).version) (locals : ℕ → Locals)
    (x : Exchange σ) (h : p.Replying x) : ¬ p.Finite depth locals x := by
  rintro ⟨count, x', hrun, hflight⟩
  rcases h.deliveries depth hmute hversion count locals x with ⟨y, hrun', side, c, _, hflight'⟩
  rw [hrun, Option.some_inj] at hrun'
  rw [← hrun', hflight] at hflight'
  exact absurd hflight' (List.cons_ne_nil _ _).symm

theorem Finite.tail (locals : ℕ → Locals) (x x₁ : Exchange σ) (h : p.Finite depth locals x)
    (hdeliver : p.deliver depth (locals 0) x = some x₁) :
    p.Finite depth (fun i => locals (i + 1)) x₁ := by
  rcases h with ⟨count, x', hrun, hflight⟩
  cases count with
  | zero =>
    cases hrun
    rw [p.deliver_nil depth _ x hflight, Option.some_inj] at hdeliver
    exact ⟨0, x₁, rfl, hdeliver ▸ hflight⟩
  | succ count =>
    rw [deliveries, tryRun_succ hdeliver] at hrun
    exact ⟨count, x', hrun, hflight⟩

theorem deliver_start (hmute : ∀ side, (p.nodes side).Mute) (locals : Locals)
    (states : Bool → NodeState σ) (packet : List Byte)
    (h : ¬ NeedsNoAnswer (p.nodes false).version locals (p.addresses true) (states false).db
      packet) :
    ∃ x' c, p.deliver depth locals (start states packet) = some x' ∧ Node.IsAnswer c ∧
      x'.flight = [(true, wire (p.nodes false).version c)] := by
  obtain ⟨s', hact, hreplies⟩ := (hmute false).act_replies
    ((p.nodes false).emit locals depth) locals (p.addresses true)
    (received (p.nodes false).version packet) (states false)
  obtain ⟨x', hdeliver, hflight⟩ := p.deliver_replies depth locals states false packet
    _ _ s' hact hreplies
  rcases hflight with ⟨hsilent, _⟩ | ⟨_, c, hc, hflight⟩
  · exact absurd ((unanswered_received_iff _ _ _ _ _).mp hsilent) h
  · exact ⟨x', c, hdeliver, hc, hflight⟩

theorem not_finite_start (hmute : ∀ side, (p.nodes side).Mute)
    (hversion : (p.nodes false).version ≠ (p.nodes true).version) (locals : ℕ → Locals)
    (states : Bool → NodeState σ) (packet : List Byte)
    (h : ¬ NeedsNoAnswer (p.nodes false).version (locals 0) (p.addresses true)
      (states false).db packet) : ¬ p.Finite depth locals (start states packet) := by
  rcases deliver_start depth hmute (locals 0) states packet h with ⟨x', c, hdeliver, hc, hflight⟩
  intro hfinite
  have hreplying : p.Replying x' := ⟨true, c, hc, hflight⟩
  exact hreplying.not_finite depth hmute hversion _ x'
    (hfinite.tail depth locals _ x' hdeliver)

/-- Between nodes whose user code sends nothing, an exchange ends without an answered
receipt exactly if its first packet needs no answer, or is no receipt and the versions
agree. -/
theorem settles_iff (hmute : ∀ side, (p.nodes side).Mute) (locals : ℕ → Locals)
    (states : Bool → NodeState σ) (packet : List Byte) :
    p.Settles depth locals (start states packet) ↔
      NeedsNoAnswer (p.nodes false).version (locals 0) (p.addresses true) (states false).db
          packet ∨
        ((p.nodes false).version = (p.nodes true).version ∧ ¬ Receipt packet) := by
  constructor
  · rintro ⟨hfinite, hreceipts⟩
    by_cases hanswer : NeedsNoAnswer (p.nodes false).version (locals 0) (p.addresses true)
        (states false).db packet
    case pos => exact Or.inl hanswer
    case neg =>
      right
      constructor
      · by_contra hversion
        exact not_finite_start depth hmute hversion locals states packet hanswer hfinite
      · intro hpacket
        obtain ⟨x', c, hdeliver, _, hflight⟩ :=
          deliver_start depth hmute (locals 0) states packet hanswer
        have hnone := hreceipts 0 _ false packet [] x' rfl rfl hpacket hdeliver
        rw [hflight] at hnone
        exact List.cons_ne_nil _ _ hnone
  · rintro (hanswer | ⟨hversion, hpacket⟩)
    · exact settles_unanswered depth hmute locals states false packet hanswer
    · exact settles_start depth hmute locals states packet hversion hpacket

def examplePair (version version' : Byte) : Pair Unit where
  nodes side := { Node.exampleNode Node.blink with version := if side then version' else version }
  addresses side := if side then 2 else 1

theorem examplePair_mute (version version' : Byte) (side : Bool) :
    ((examplePair version version').nodes side).Mute where
  actions := by
    intro call function hfunction vars
    unfold Node.actionFunction at hfunction
    split at hfunction
    case isTrue =>
      rcases Option.map_eq_some_iff.mp hfunction with ⟨a, ha, rfl⟩
      simp only [examplePair, Node.exampleNode, Option.ite_none_right_eq_some] at ha
      rw [← Option.some_inj.mp ha.2]
      exact Option.some_ne_none _
    case isFalse => exact absurd hfunction (Option.some_ne_none _).symm
  callbacks := fun _ hsub => absurd hsub List.not_mem_nil

/-- The number of actions asked for, and told, between two nodes of version 3. -/
theorem settles_getNActions :
    (examplePair 3#8 3#8).Settles 0 (fun _ => Node.exampleLocals)
      (start (fun _ => Node.exampleState) [3#8, 3#8, 0#8]) :=
  (settles_iff 0 (examplePair_mute 3#8 3#8) _ _ _).mpr (Or.inr ⟨rfl, fun h => by
    rcases h.2 with h | h <;> exact absurd h (by decide)⟩)

/-- The same request asked by a node of version 4. -/
theorem not_settles :
    ¬ ∀ (p : Pair Unit) (depth : ℕ) (locals : ℕ → Locals) (states : Bool → NodeState Unit)
      (packet : List Byte), (∀ side, (p.nodes side).Mute) →
      p.Settles depth locals (start states packet) := by
  intro hall
  have hsettles := hall (examplePair 3#8 4#8) 0 (fun _ => Node.exampleLocals)
    (fun _ => Node.exampleState) [3#8, 3#8, 0#8] (examplePair_mute 3#8 4#8)
  refine not_finite_start 0 (examplePair_mute 3#8 4#8) (by decide) _ _ _ ?_ hsettles.1
  exact fun h => h.2.2.2

end Pair

end Aquila.Protocol
