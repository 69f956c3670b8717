import Aquila.Library.Memory
import Aquila.Mesh.Layer
import Aquila.Services.Requests

/-! # Service packets sent and received

A packet formed by `request` or `response` is taken apart by `rxHandler` into the same
method, name and data, as long as both fit their buffers and the packet.
-/

namespace Aquila.Services
open Library Mesh

/-- A name and data that fit a packet, and the buffers they are copied to on arrival. -/
structure Sendable (name data : List Byte) : Prop where
  name_lt : name.length < maxNameSize
  name_ne : 0 ∉ name
  data_lt : data.length < maxDataSize
  total_le : name.length + data.length ≤ maxDataSize

/-- The packet is taken apart into these fields. -/
structure ServicePacket.Carries (pkt : ServicePacket) (method : Byte) (name data : List Byte) :
    Prop where
  version : pkt.version = servicesVersion
  method : pkt.method = method
  name : pkt.name = name
  dataSize : pkt.dataSize.toNat = data.length
  data : pkt.data = data

/-- What a target is given of the data: variables need none. -/
def Target.given (target : Target) (data : List Byte) : List Byte :=
  match target with
  | .intVar _ => []
  | .floatVar _ => []
  | .function _ => data
  | .service _ => data

variable {name data : List Byte}

theorem payload_servicePacket (h : Sendable name data) (destAddr : Word) (method : Byte) :
    (servicePacket destAddr method name data).message.payload =
      servicesVersion :: method :: BitVec.ofNat 8 name.length :: BitVec.ofNat 8 data.length ::
        (name ++ data) := by
  have hbound : maxDataSize = 101 := rfl
  have htotal := h.total_le
  have hname : (BitVec.ofNat 8 name.length).toNat = name.length :=
    Nat.mod_eq_of_lt (by omega)
  have hdata : (BitVec.ofNat 8 data.length).toNat = data.length :=
    Nat.mod_eq_of_lt (by omega)
  have hsize : (BitVec.ofNat 8 name.length + BitVec.ofNat 8 data.length + 4).toNat =
      name.length + data.length + 4 := by
    rw [BitVec.toNat_add, BitVec.toNat_add, hname, hdata]
    change ((name.length + data.length) % 256 + 4) % 256 = _
    omega
  simp only [servicePacket, hname, hdata, hsize, List.take_length]
  apply List.take_of_length_le
  simp

theorem carries_servicePacket (h : Sendable name data) (destAddr : Word) (method : Byte)
    (srcAddr : Word) (options lqi rssi : Byte) (stack : ServicePacket) :
    let ind := (servicePacket destAddr method name data).message.arrival srcAddr options lqi rssi
    ((copyPacket ind stack).value).Carries method name data ∧
      ((copyPacket ind stack).value).Consistent ind.size.toNat ∧ ind.size.toNat ≤ maxPayload := by
  intro ind
  have hbound : maxDataSize = 101 := rfl
  have hmax : maxPayload = 105 := rfl
  have htotal := h.total_le
  have hpayload := payload_servicePacket h destAddr method
  have hsize : ind.size.toNat = 4 + (name ++ data).length := by
    change (BitVec.ofNat 8 (servicePacket destAddr method name data).message.payload.length).toNat
      = _
    rw [hpayload, BitVec.toNat_ofNat]
    simp only [List.length_cons, List.length_append]
    omega
  have hcell (i : ℕ) (hi : i < 4 + (name ++ data).length) :
      (copyPacket ind stack).value i = (servicesVersion :: method ::
        BitVec.ofNat 8 name.length :: BitVec.ofNat 8 data.length :: (name ++ data)).getD i 0 := by
    change (if i < ind.size.toNat then ind.payload.getD i 0 else stack i) = _
    rw [hsize, if_pos hi, ← hpayload]
    rfl
  generalize (copyPacket ind stack).value = pkt at hcell ⊢
  have hnameSize : pkt.nameSize.toNat = name.length := by
    rw [ServicePacket.nameSize, hcell 2 (by omega)]
    exact Nat.mod_eq_of_lt (by omega)
  have hdataSize : pkt.dataSize.toNat = data.length := by
    rw [ServicePacket.dataSize, hcell 3 (by omega)]
    exact Nat.mod_eq_of_lt (by omega)
  have hnameData : ∀ i < (name ++ data).length, pkt.nameData i = (name ++ data).getD i 0 := by
    intro i hi
    rw [ServicePacket.nameData, hcell (4 + i) (by omega), Nat.add_comm]
    rfl
  rw [List.length_append] at hsize hnameData
  refine ⟨⟨hcell 0 (by omega), hcell 1 (by omega), ?_, hdataSize, ?_⟩,
    ⟨by omega, by rw [hnameSize]; exact h.name_lt, by rw [hdataSize]; exact h.data_lt⟩, by omega⟩
  · have hread : (List.range name.length).map pkt.nameData = name := by
      have hcells := map_getD_range_append [] name (0 : Byte)
      refine Eq.trans (List.map_congr_left ?_) hcells
      intro i hi
      rw [List.mem_range] at hi
      rw [hnameData i (by omega), List.getD_append _ _ _ _ hi, List.nil_append, List.length_nil,
        Nat.zero_add]
    rw [ServicePacket.name, hnameSize, hread]
    exact takeWhile_ne_of_notMem h.name_ne
  · have hcells := map_getD_range_append name data (0 : Byte)
    rw [ServicePacket.data, hnameSize, hdataSize]
    refine Eq.trans (List.map_congr_left ?_) hcells
    intro i hi
    rw [List.mem_range] at hi
    exact hnameData _ (by omega)

theorem not_turnedAway (h : Sendable name data) (destAddr : Word) (method : Byte)
    (srcAddr : Word) (options lqi rssi : Byte) (stack : ServicePacket) :
    let ind := (servicePacket destAddr method name data).message.arrival srcAddr options lqi rssi
    ¬ TurnedAway ind (copyPacket ind stack).value := by
  intro ind
  rcases carries_servicePacket h destAddr method srcAddr options lqi rssi stack with
    ⟨hcarries, hconsistent, _⟩
  have hsize : 4 + _ + _ ≤ ind.size.toNat := hconsistent.total_le
  rw [TurnedAway, not_or, not_or, not_or]
  exact ⟨not_not.mpr rfl, not_not.mpr rfl, by omega, not_not.mpr hcarries.version⟩

theorem handledSafely_servicePacket (r : Registry) (h : Sendable name data) (destAddr : Word)
    (method : Byte) (srcAddr : Word) (options lqi rssi : Byte) (stack : ServicePacket) :
    HandledSafely r
      ((servicePacket destAddr method name data).message.arrival srcAddr options lqi rssi)
      stack := by
  rcases carries_servicePacket h destAddr method srcAddr options lqi rssi stack with
    ⟨_, hconsistent, hsize⟩
  rw [handledSafely_copied r _ stack hsize
    (not_turnedAway h destAddr method srcAddr options lqi rssi stack)]
  exact ⟨⟨hconsistent.fits _ hsize, within_dispatch_consistent r _ _ _ hconsistent⟩,
    Or.inr hconsistent⟩

/-- What `rxHandler` does with a request, by the name that is looked up. -/
def requested (r : Registry) (srcAddr : Word) (method : Byte) (name data : List Byte) : Dispatch :=
  match r.lookup name with
  | none => .reject
  | some target => .serve target srcAddr method (target.given data)

theorem serve_eq (r : Registry) (srcAddr : Word) (pkt : ServicePacket) :
    (serve r srcAddr pkt).value = requested r srcAddr pkt.method pkt.name pkt.data := by
  rw [serve, requested]
  cases r.lookup pkt.name with
  | none => rfl
  | some target => cases target <;> rfl

def requestMethods : List Byte := [0x00#8, 0x01#8, 0x02#8, 0x03#8]

def responseStatuses : List Byte := [0x04#8, 0x05#8, 0x06#8, 0x07#8, 0x08#8]

theorem isResponse_iff (pkt : ServicePacket) :
    pkt.isResponse = true ↔ pkt.method ∈ responseStatuses := decide_eq_true_iff

theorem request_received (r : Registry) (h : Sendable name data) (destAddr : Word)
    {method : Byte} (hmethod : method ∈ requestMethods) (srcAddr : Word)
    (options lqi rssi : Byte) (stack : ServicePacket) :
    (rxHandler r
        ((servicePacket destAddr method name data).message.arrival srcAddr options lqi rssi)
      stack).value = requested r srcAddr method name data := by
  have hcarries := (carries_servicePacket h destAddr method srcAddr options lqi rssi stack).1
  have hother : ∀ m ∈ requestMethods, m ∉ responseStatuses := by decide
  rw [rxHandler_dispatch r _ stack
      (not_turnedAway h destAddr method srcAddr options lqi rssi stack),
    dispatch, if_neg, serve_eq, hcarries.method, hcarries.name, hcarries.data]
  · rfl
  · rw [isResponse_iff, hcarries.method]
    exact hother method hmethod

theorem response_received (r : Registry) (h : Sendable name data) (destAddr : Word)
    {status : Byte} (hstatus : status ∈ responseStatuses) (srcAddr : Word)
    (options lqi rssi : Byte) (stack : ServicePacket) :
    (rxHandler r
        ((servicePacket destAddr status name data).message.arrival srcAddr options lqi rssi)
      stack).value = .response r.lastReqCb srcAddr status data := by
  have hcarries := (carries_servicePacket h destAddr status srcAddr options lqi rssi stack).1
  have haway := not_turnedAway h destAddr status srcAddr options lqi rssi stack
  rw [rxHandler_responds r _ stack ⟨haway, (isResponse_iff _).mpr (by rwa [hcarries.method])⟩,
    hcarries.method, hcarries.data]
  rfl

theorem sent_request {τ : Type} {s : AquilaServices τ} (h : s.waitingResponse = false)
    (destAddr : Word) (method : Byte) (callback : Option ℕ) (millis : τ) :
    (s.call (.request destAddr method name callback data millis)).sent =
      s.sent ++ [servicePacket destAddr method name data] := by
  rw [AquilaServices.call, h]
  cases callback <;> rfl

/-- An indication is taken apart into these fields without harm, and dispatched. -/
structure ReceivedAs (r : Registry) (ind : Indication) (stack : ServicePacket) (method : Byte)
    (name data : List Byte) (dispatch : Dispatch) : Prop where
  carries : (copyPacket ind stack).value.Carries method name data
  safely : HandledSafely r ind stack
  dispatch : (rxHandler r ind stack).value = dispatch

/-- `request` sends a packet, unless another request waits, that is dispatched on its name with its
method and data, and `response` sends one that gives its status and data to the waiting callback. -/
theorem sent_received {τ : Type} (s : AquilaServices τ) (r : Registry) (destAddr : Word)
    (method : Byte) (name data : List Byte) (h : Sendable name data) (srcAddr : Word)
    (options lqi rssi : Byte) (stack : ServicePacket) :
    (∀ callback millis, method ∈ requestMethods → s.waitingResponse = false →
      ∃ p, (s.call (.request destAddr method name callback data millis)).sent = s.sent ++ [p] ∧
        ReceivedAs r (p.message.arrival srcAddr options lqi rssi) stack method name data
          (requested r srcAddr method name data)) ∧
    (method ∈ responseStatuses →
      ∃ p, (s.call (.response destAddr method data)).sent = s.sent ++ [p] ∧
        ReceivedAs r (p.message.arrival srcAddr options lqi rssi) stack method [] data
          (.response r.lastReqCb srcAddr method data)) := by
  constructor
  · intro callback millis hmethod hidle
    refine ⟨_, sent_request hidle destAddr method callback millis, ?_⟩
    constructor
    case carries => exact (carries_servicePacket h destAddr method srcAddr options lqi rssi stack).1
    case safely =>
      exact handledSafely_servicePacket r h destAddr method srcAddr options lqi rssi stack
    case dispatch => exact request_received r h destAddr hmethod srcAddr options lqi rssi stack
  · intro hstatus
    have hnone : Sendable [] data :=
      ⟨by decide, List.not_mem_nil, h.data_lt, by have := h.data_lt; simp; omega⟩
    refine ⟨servicePacket destAddr method [] data, rfl, ?_⟩
    constructor
    case carries =>
      exact (carries_servicePacket hnone destAddr method srcAddr options lqi rssi stack).1
    case safely =>
      exact handledSafely_servicePacket r hnone destAddr method srcAddr options lqi rssi stack
    case dispatch =>
      exact response_received r hnone destAddr hstatus srcAddr options lqi rssi stack

/-- A request for the service "led" with a null byte among its data, and a response to it. -/
theorem sent_received_led :
    let s : AquilaServices ℕ := .init .empty 0
    let led : List Byte := [0x6C#8, 0x65#8, 0x64#8]
    let data : List Byte := [0x31#8, 0x00#8]
    (∃ p, (s.call (.request 0x0002#16 0x01#8 led (some 5) data 0)).sent = s.sent ++ [p] ∧
      ReceivedAs .empty (p.message.arrival 0x0001#16 0 0 0) (fun _ => 0) 0x01#8 led data
        (requested .empty 0x0001#16 0x01#8 led data)) ∧
      ∃ p, (s.call (.response 0x0001#16 0x04#8 data)).sent = s.sent ++ [p] ∧
        ReceivedAs .empty (p.message.arrival 0x0002#16 0 0 0) (fun _ => 0) 0x04#8 [] data
          (.response none 0x0002#16 0x04#8 data) := by
  intro s led data
  have hled : Sendable led data := ⟨by decide, by decide, by decide, by decide⟩
  exact ⟨(sent_received s .empty 0x0002#16 0x01#8 led data hled 0x0001#16 0 0 0 (fun _ => 0)).1
      (some 5) 0 (by decide) rfl,
    (sent_received s .empty 0x0001#16 0x04#8 led data hled 0x0002#16 0 0 0 (fun _ => 0)).2
      (by decide)⟩

end Aquila.Services
