import Aquila.Protocol.Reception
import Aquila.Services.ReceiveBounds

/-! # Oversized indications

An unsecured frame carries up to 109 payload bytes, four more than the arrays it is
copied to: once into the reception queue, then by the handler of its endpoint.
-/

namespace Aquila
open Library Mesh

/-- The access does not leave the local `pkt`. -/
def Services.ServiceAccess.InsidePkt : Services.ServiceAccess → Prop
  | .pkt i => i < 4 + Services.maxDataSize
  | _ => True

theorem Protocol.within_rxHandler (p : Protocol.Received) (ind : Indication) (bound : ℕ) :
    (p.rxHandler ind).Within (· < bound) ↔ ind.size.toNat ≤ bound := by
  rw [Protocol.Received.rxHandler, Traced.within_bind, Payload.within_copy]
  exact and_iff_left (Traced.within_pure _ _)

namespace Services

theorem within_rxHandler_insidePkt (r : Registry) (ind : Indication) (stack : ServicePacket)
    (h : ind.size.toNat ≤ maxPayload) :
    (rxHandler r ind stack).Within ServiceAccess.InsidePkt := by
  have hpacket : (copyPacket ind stack).Within ServiceAccess.InsidePkt := by
    have hpkt : 4 + maxDataSize = maxPayload := rfl
    simp only [copyPacket, Traced.within_bind, Traced.within_touchBlock, Traced.within_pure,
      ServiceAccess.InsidePkt, hpkt, implies_true, and_true, true_and]
    exact fun i hi => hi.trans_le h
  have hcopies : ∀ pkt, (copyNameAndData pkt).Within ServiceAccess.InsidePkt := by
    intro pkt
    simp [copyNameAndData, ServiceAccess.InsidePkt]
  have hdispatch : ∀ pkt, (dispatch r ind.srcAddr pkt).Within ServiceAccess.InsidePkt := by
    intro pkt
    exact within_dispatch r pkt _ _ ((Traced.within_touchBlock _ _ _).mpr (fun _ _ => trivial))
  rw [rxHandler]
  split
  case isTrue => exact Traced.within_pure _ _
  case isFalse =>
    split
    case isTrue => exact Traced.within_pure _ _
    case isFalse =>
      rw [Traced.within_bind]
      refine ⟨hpacket, ?_⟩
      split
      case isTrue => exact Traced.within_pure _ _
      case isFalse =>
        rw [Traced.within_bind]
        exact ⟨hcopies _, hdispatch _⟩

end Services

/-- The copies made of an indication: into the queue, and by each library handler that may
be given it. -/
structure CopiedInside (s : Rx) (ind : RxPacket) (stack : RxBufPacket) : Prop where
  queued : (s.rxBootstrap ind stack).Within (· < maxPayload)
  handled : (s.rxBootstrap ind stack).value.1 = true →
    ∀ i : Indication, i.size = ind.size →
      (∀ p : Protocol.Received, (p.rxHandler i).Within (· < maxPayload)) ∧
        ∀ r pkt, (Services.rxHandler r i pkt).Within Services.ServiceAccess.InsidePkt

/-- Every copy stays inside its array exactly for indications that are refused or fit. -/
theorem copiedInside_iff (s : Rx) (ind : RxPacket) (stack : RxBufPacket) :
    CopiedInside s ind stack ↔ s.Refuses ind ∨ ind.size.toNat ≤ maxPayload := by
  constructor
  · intro h
    exact (s.within_rxBootstrap ind stack maxPayload).mp h.queued
  · intro h
    refine ⟨(s.within_rxBootstrap ind stack maxPayload).mpr h, fun haccepted i hi => ?_⟩
    have hsize : i.size.toNat ≤ maxPayload := by
      rw [hi]
      rcases h with h | h
      · rw [s.rxBootstrap_refused ind stack h] at haccepted
        cases haccepted
      · exact h
    exact ⟨fun p => (Protocol.within_rxHandler p i maxPayload).mpr hsize,
      fun r pkt => Services.within_rxHandler_insidePkt r i pkt hsize⟩

def fullIndication : RxPacket := { Rx.examplePacket with size := 109#8 }

/-- A full unsecured frame overruns the queue cell of an idle receiver. -/
theorem not_copiedInside :
    ¬ ∀ (s : Rx) (ind : RxPacket) (stack : RxBufPacket),
      ind.size.toNat ≤ nwkMaxPayloadSize → CopiedInside s ind stack := by
  intro hall
  let s := Rx.init (fun _ => 0) (fun _ => ⟨fullIndication, 0⟩) ⟨fullIndication, 0⟩
  have hqueued := (hall s fullIndication ⟨fullIndication, 0⟩ (by decide)).queued
  rw [s.within_rxBootstrap fullIndication ⟨fullIndication, 0⟩ maxPayload] at hqueued
  rcases hqueued with hrefused | hsize
  · exact absurd hrefused (by decide)
  · exact absurd hsize (by decide)

end Aquila
