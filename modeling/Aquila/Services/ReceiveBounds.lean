import Aquila.Services.Receive

/-! # Bounds of the services receiver

Nothing is checked after the version byte, so the two copies stay inside their buffers
only for some sizes, and a request that is not served can be harmless although its
header is inconsistent.
-/

namespace Aquila.Services
open Library Mesh

/-- The packets turned away before their sizes are used. -/
def TurnedAway (ind : Indication) (pkt : ServicePacket) : Prop :=
  ind.srcEndpoint ≠ servicesEndpoint ∨ ind.dstEndpoint ≠ servicesEndpoint ∨
    ind.size.toNat < 4 ∨ pkt.version ≠ servicesVersion

/-- The sizes for which the copies and terminators stay inside the local buffers. -/
structure ServicePacket.Fits (pkt : ServicePacket) : Prop where
  nameSize_lt : pkt.nameSize.toNat < maxNameSize
  dataSize_lt : pkt.dataSize.toNat < maxDataSize
  total_le : pkt.nameSize.toNat + pkt.dataSize.toNat ≤ maxDataSize

def Unserved (r : Registry) (pkt : ServicePacket) : Prop :=
  pkt.isResponse = false ∧ r.lookup pkt.name = none

variable (r : Registry) (ind : Indication) (pkt stack : ServicePacket)

theorem maxNameSize_lt : maxNameSize ≤ maxDataSize := by decide

theorem within_copyNameAndData (size : ℕ) :
    (copyNameAndData pkt).Within (ServiceAccess.Inside size) ↔ pkt.Fits := by
  simp only [copyNameAndData, Traced.within_bind, Traced.within_touchBlock, Traced.within_touch,
    ServiceAccess.Inside, forall_offset_lt_iff]
  constructor
  · rintro ⟨-, -, hname, hdata, -, hdataSize⟩
    have := maxNameSize_lt
    exact ⟨hname, hdataSize, by omega⟩
  · rintro ⟨hname, hdata, htotal⟩
    refine ⟨fun i hi => ?_, fun i hi => hi.trans hname, hname, Or.inr htotal,
      fun i hi => hi.trans hdata, hdata⟩
    have := maxNameSize_lt
    omega

theorem within_passData (size : ℕ) :
    (passData pkt).Within (ServiceAccess.Inside size) ↔
      pkt.dataSize.toNat = 0 ∨ 4 + pkt.nameSize.toNat + pkt.dataSize.toNat ≤ size := by
  rw [passData, Traced.within_touchBlock]
  exact forall_offset_lt_iff _ _ size

theorem respond_ne_reject (srcAddr : Word) : (respond r srcAddr pkt).value ≠ .reject := by
  rw [respond]
  split
  case h_1 => exact Dispatch.noConfusion
  case h_2 => exact Dispatch.noConfusion

theorem serve_reject_iff (reqAddr : Word) :
    (serve r reqAddr pkt).value = .reject ↔ r.lookup pkt.name = none := by
  rw [serve]
  cases r.lookup pkt.name with
  | none => exact iff_of_true rfl rfl
  | some target => cases target <;> exact iff_of_false Dispatch.noConfusion (Option.some_ne_none _)

theorem dispatch_reject_iff (srcAddr : Word) :
    (dispatch r srcAddr pkt).value = .reject ↔ Unserved r pkt := by
  unfold dispatch Unserved
  cases pkt.isResponse with
  | true => exact iff_of_false (respond_ne_reject r pkt srcAddr) (fun h => Bool.noConfusion h.1)
  | false => exact (serve_reject_iff r pkt srcAddr).trans (and_iff_right rfl).symm

theorem within_dispatch_unserved (srcAddr : Word) (size : ℕ) (h : Unserved r pkt) :
    (dispatch r srcAddr pkt).Within (ServiceAccess.Inside size) := by
  simp only [dispatch, serve, h.1, h.2, Bool.false_eq_true, if_false]
  exact Traced.within_pure _ _

theorem within_dispatch (P : ServiceAccess → Prop) (srcAddr : Word)
    (hpass : (passData pkt).Within P) : (dispatch r srcAddr pkt).Within P := by
  have hcall : ∀ d : Dispatch, (do passData pkt; pure d : Traced ServiceAccess Dispatch).Within
      P := fun d => (Traced.within_bind _ _ _).mpr ⟨hpass, Traced.within_pure P d⟩
  rw [dispatch]
  split
  case isTrue =>
    rw [respond]
    split
    case h_1 => exact Traced.within_pure _ _
    case h_2 => exact hcall _
  case isFalse =>
    rw [serve]
    split
    case h_1 => exact Traced.within_pure _ _
    case h_2 => exact Traced.within_pure _ _
    case h_3 => exact Traced.within_pure _ _
    case h_4 => exact hcall _
    case h_5 => exact hcall _

theorem within_dispatch_consistent (srcAddr : Word) (size : ℕ) (h : pkt.Consistent size) :
    (dispatch r srcAddr pkt).Within (ServiceAccess.Inside size) :=
  within_dispatch r pkt _ srcAddr ((within_passData pkt size).mpr (Or.inr h.total_le))

theorem ServicePacket.Consistent.fits {size : ℕ} (h : pkt.Consistent size)
    (hsize : size ≤ maxPayload) : pkt.Fits := by
  refine ⟨h.nameSize_lt, h.dataSize_lt, ?_⟩
  have := h.total_le
  simp only [maxDataSize]
  omega

/-- What is asked of the handler: bounds hold, and only consistent packets are not rejected. -/
def HandledSafely (r : Registry) (ind : Indication) (stack : ServicePacket) : Prop :=
  (rxHandler r ind stack).Within (ServiceAccess.Inside ind.size.toNat) ∧
    ((rxHandler r ind stack).value = .reject ∨
      ((copyPacket ind stack).value).Consistent ind.size.toNat)

theorem rxHandler_turnedAway (h : TurnedAway ind (copyPacket ind stack).value) :
    (rxHandler r ind stack).value = .reject := by
  rw [rxHandler]
  split
  case isTrue => rfl
  case isFalse hendpoint =>
    split
    case isTrue => rfl
    case isFalse hsize =>
      rw [not_or] at hendpoint
      rw [TurnedAway, or_iff_right hendpoint.1, or_iff_right hendpoint.2, or_iff_right hsize] at h
      rw [Traced.value_bind, if_pos h]
      rfl

theorem within_copyPacket (h : ind.size.toNat ≤ maxPayload) :
    (copyPacket ind stack).Within (ServiceAccess.Inside ind.size.toNat) := by
  have hpkt : 4 + maxDataSize = maxPayload := rfl
  simp only [copyPacket, Traced.within_bind, Traced.within_touchBlock, Traced.within_pure, and_true,
    ServiceAccess.Inside, hpkt]
  exact ⟨fun i hi => hi, fun i hi => by omega⟩

theorem within_rxHandler_turnedAway (hsize : ind.size.toNat ≤ maxPayload)
    (h : TurnedAway ind (copyPacket ind stack).value) :
    (rxHandler r ind stack).Within (ServiceAccess.Inside ind.size.toNat) := by
  rw [rxHandler]
  split
  case isTrue => exact Traced.within_pure _ _
  case isFalse hendpoint =>
    split
    case isTrue => exact Traced.within_pure _ _
    case isFalse hshort =>
      rw [not_or] at hendpoint
      rw [TurnedAway, or_iff_right hendpoint.1, or_iff_right hendpoint.2, or_iff_right hshort] at h
      rw [Traced.within_bind, if_pos h]
      exact ⟨within_copyPacket ind stack hsize, Traced.within_pure _ _⟩

theorem rxHandler_copied (h : ¬ TurnedAway ind (copyPacket ind stack).value) :
    rxHandler r ind stack = (do
      let pkt ← copyPacket ind stack
      if pkt.version ≠ servicesVersion then pure .reject
      else do
        copyNameAndData pkt
        dispatch r ind.srcAddr pkt) := by
  simp only [TurnedAway, not_or] at h
  rw [rxHandler, if_neg (not_or.mpr ⟨h.1, h.2.1⟩), if_neg h.2.2.1]

theorem handledSafely_copied (hsize : ind.size.toNat ≤ maxPayload)
    (h : ¬ TurnedAway ind (copyPacket ind stack).value) :
    HandledSafely r ind stack ↔
      let pkt := (copyPacket ind stack).value
      (pkt.Fits ∧ (dispatch r ind.srcAddr pkt).Within (ServiceAccess.Inside ind.size.toNat)) ∧
        (Unserved r pkt ∨ pkt.Consistent ind.size.toNat) := by
  have hversion : ¬ (copyPacket ind stack).value.version ≠ servicesVersion := by
    simp only [TurnedAway, not_or] at h
    exact h.2.2.2
  rw [HandledSafely, rxHandler_copied r ind stack h]
  simp only [Traced.within_bind, Traced.value_bind]
  rw [if_neg hversion]
  simp only [Traced.within_bind, Traced.value_bind, within_copyNameAndData, dispatch_reject_iff,
    within_copyPacket ind stack hsize, true_and]

/-- The handler is safe exactly on packets it turns away at once, on packets with a consistent
header, and on unserved requests whose sizes fit the buffers. -/
theorem handledSafely_iff (hsize : ind.size.toNat ≤ maxPayload) :
    HandledSafely r ind stack ↔
      let pkt := (copyPacket ind stack).value
      TurnedAway ind pkt ∨ pkt.Consistent ind.size.toNat ∨ (pkt.Fits ∧ Unserved r pkt) := by
  by_cases h : TurnedAway ind (copyPacket ind stack).value
  · exact iff_of_true ⟨within_rxHandler_turnedAway r ind stack hsize h,
      Or.inl (rxHandler_turnedAway r ind stack h)⟩ (Or.inl h)
  · rw [handledSafely_copied r ind stack hsize h]
    dsimp only
    rw [or_iff_right h]
    constructor
    · rintro ⟨⟨hfits, -⟩, hunserved | hconsistent⟩
      · exact Or.inr ⟨hfits, hunserved⟩
      · exact Or.inl hconsistent
    · rintro (hconsistent | ⟨hfits, hunserved⟩)
      · exact ⟨⟨hconsistent.fits _ hsize, within_dispatch_consistent r _ _ _ hconsistent⟩,
          Or.inr hconsistent⟩
      · exact ⟨⟨hfits, within_dispatch_unserved r _ _ _ hunserved⟩, Or.inl hunserved⟩

def Registry.empty : Registry where
  intVars _ := ⟨none, none⟩
  floatVars _ := ⟨none, none⟩
  funcServices _ := ⟨none, none⟩
  services _ := ⟨none, none⟩
  lastReqCb := none

def bareRequest (nameSize dataSize : Byte) : Indication where
  srcAddr := 0x0001#16
  dstAddr := 0x0002#16
  srcEndpoint := servicesEndpoint
  dstEndpoint := servicesEndpoint
  options := 0
  size := 4
  lqi := 0
  rssi := 0
  payload := [servicesVersion, 0x00#8, nameSize, dataSize]

def exampleRegistry : Registry :=
  { Registry.empty with
    services := fun i => if i = 0 then ⟨some [0x6C#8, 0x65#8, 0x64#8], some 7⟩ else ⟨none, none⟩ }

/-- `PUT` of the two bytes `on` to the service `led`. -/
def exampleRequest : Indication :=
  { bareRequest 3 2 with
    size := 9
    payload := [servicesVersion, 0x01#8, 3, 2, 0x6C#8, 0x65#8, 0x64#8, 0x6F#8, 0x6E#8] }

theorem handledSafely_exampleRequest :
    HandledSafely exampleRegistry exampleRequest (fun _ => 0) ∧
      (rxHandler exampleRegistry exampleRequest (fun _ => 0)).value =
        .serve (.service 7) 1 0x01#8 [0x6F#8, 0x6E#8] :=
  ⟨(handledSafely_iff exampleRegistry exampleRequest (fun _ => 0) (by decide)).mpr
      (Or.inr (Or.inl ⟨by decide, by decide, by decide⟩)),
    by decide +kernel⟩

/-- A name of 200 bytes that was never sent is copied past the end of `name`. -/
theorem not_handledSafely :
    ¬ ∀ (r : Registry) (ind : Indication) (stack : ServicePacket),
      ind.size.toNat ≤ maxPayload → HandledSafely r ind stack := by
  intro hall
  have hterminator :
      .name 200 ∈ (rxHandler .empty (bareRequest 200 0) (fun _ => 0)).accesses := by
    decide +kernel
  have hsafe := hall .empty (bareRequest 200 0) (fun _ => 0) (by decide)
  have hinside : 200 < maxNameSize := hsafe.1 _ hterminator
  exact absurd hinside (by decide)

end Aquila.Services
