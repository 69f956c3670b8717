import Aquila.Library.Run
import Aquila.Mesh.Tx
import Aquila.Services.ReceiveBounds

/-! # Requests and their callbacks

One callback at a time waits for a response or for the timeout. User code runs before the
slot is cleared, so what it requests is still refused. `lastRequest` is the number of the
accepted request that assigned `lastReqCb`, and is only written where `lastReqCb` is.
-/

namespace Aquila.Services
open Library Mesh

def r200 : Byte := 0x04#8

/-- A request that was sent with a callback while none was waiting. -/
structure Accepted where
  destAddr : Word
  callback : ℕ

/-- Why a callback is called: with the status and data of a response, or with `R408`. -/
inductive Cause where
  | response (srcAddr : Word) (method : Byte) (data : List Byte)
  | timeout
  deriving DecidableEq

/-- A call of `lastReqCb`, with the number of requests accepted before it. -/
structure Invocation where
  request : ℕ
  callback : ℕ
  accepted : ℕ
  cause : Cause
  deriving DecidableEq

/-- The state of `AquilaServices`; `millis` returns values of type `τ`. -/
structure AquilaServices (τ : Type) where
  registry : Registry
  waitingResponse : Bool
  lastRequestTime : τ
  lastRequest : ℕ
  /-- packets given to `Mesh.sendPacket` -/
  sent : List Outgoing
  accepted : List Accepted
  invoked : List Invocation

inductive ServiceCall (τ : Type) where
  | request (destAddr : Word) (method : Byte) (name : List Byte) (callback : Option ℕ)
    (data : List Byte) (millis : τ)
  | response (destAddr : Word) (method : Byte) (data : List Byte)

/-- What happens between two step boundaries, with the calls made by the user code that runs and
the text of a variable or function result. -/
inductive ServiceStep (τ : Type) where
  | call (c : ServiceCall τ)
  | receive (ind : Indication) (stack : ServicePacket) (calls : List (ServiceCall τ))
    (text : List Byte)
  | loop (now : τ) (calls : List (ServiceCall τ))

def servicePacket (destAddr : Word) (method : Byte) (name data : List Byte) : Outgoing :=
  let nameSize := BitVec.ofNat 8 name.length
  let dataSize := BitVec.ofNat 8 data.length
  let pkt := servicesVersion :: method :: nameSize :: dataSize ::
    (name.take nameSize.toNat ++ data.take dataSize.toNat)
  ⟨⟨destAddr, servicesEndpoint, servicesEndpoint, pkt.take (nameSize + dataSize + 4).toNat⟩,
    requestAck destAddr⟩

namespace AquilaServices

variable {τ : Type}

def init (registry : Registry) (time : τ) : AquilaServices τ where
  registry := { registry with lastReqCb := none }
  waitingResponse := false
  lastRequestTime := time
  lastRequest := 0
  sent := []
  accepted := []
  invoked := []

def send (s : AquilaServices τ) (packet : Outgoing) : AquilaServices τ :=
  { s with sent := s.sent ++ [packet] }

/-- The end of `request`: register the callback. -/
def wait (s : AquilaServices τ) (destAddr : Word) (callback : ℕ) (millis : τ) : AquilaServices τ :=
  { s with
    registry.lastReqCb := some callback
    waitingResponse := true
    lastRequestTime := millis
    lastRequest := s.accepted.length
    accepted := s.accepted ++ [⟨destAddr, callback⟩] }

/-- `AquilaServices::request` and `AquilaServices::response` -/
def call (s : AquilaServices τ) : ServiceCall τ → AquilaServices τ
  | .request destAddr method name callback data millis =>
    if s.waitingResponse then s
    else
      let s := s.send (servicePacket destAddr method name data)
      match callback with
      | none => s
      | some callback => s.wait destAddr callback millis
  | .response destAddr method data => s.send (servicePacket destAddr method [] data)

/-- `if(lastReqCb != NULL) lastReqCb(...)` -/
def invoke (s : AquilaServices τ) (cause : Cause) (calls : List (ServiceCall τ)) :
    AquilaServices τ :=
  match s.registry.lastReqCb with
  | none => s
  | some callback =>
    run call
      { s with invoked := s.invoked ++ [⟨s.lastRequest, callback, s.accepted.length, cause⟩] } calls

def complete (s : AquilaServices τ) (cause : Cause) (calls : List (ServiceCall τ)) :
    AquilaServices τ :=
  { s.invoke cause calls with registry.lastReqCb := none, waitingResponse := false }

/-- Serve a request: `varResponse` answers for variables and functions. -/
def serve (s : AquilaServices τ) (target : Target) (reqAddr : Word)
    (calls : List (ServiceCall τ)) (text : List Byte) : AquilaServices τ :=
  match target with
  | .intVar _ => s.call (.response reqAddr r200 text)
  | .floatVar _ => s.call (.response reqAddr r200 text)
  | .function _ => (run call s calls).call (.response reqAddr r200 text)
  | .service _ => run call s calls

/-- `rxHandler` -/
def receive (s : AquilaServices τ) (ind : Indication) (stack : ServicePacket)
    (calls : List (ServiceCall τ)) (text : List Byte) : AquilaServices τ :=
  match (rxHandler s.registry ind stack).value with
  | .reject => s
  | .response _ srcAddr method data => s.complete (.response srcAddr method data) calls
  | .serve target reqAddr _ _ => s.serve target reqAddr calls text

/-- `AquilaServices::loop`, where `expired` is `lastRequestTime + AQUILASERVICES_TIMEOUT < now`
on doubles. -/
def loop (expired : τ → τ → Bool) (s : AquilaServices τ) (now : τ) (calls : List (ServiceCall τ)) :
    AquilaServices τ :=
  if expired s.lastRequestTime now then s.complete .timeout calls else s

def step (expired : τ → τ → Bool) (s : AquilaServices τ) : ServiceStep τ → AquilaServices τ
  | .call c => s.call c
  | .receive ind stack calls text => s.receive ind stack calls text
  | .loop now calls => s.loop expired now calls

end AquilaServices

/-! ### Response packets -/

/-- A packet that reaches the response branch of `rxHandler`. -/
def Responds (ind : Indication) (stack : ServicePacket) : Prop :=
  ¬ TurnedAway ind (copyPacket ind stack).value ∧ (copyPacket ind stack).value.isResponse = true

theorem rxHandler_dispatch (r : Registry) (ind : Indication) (stack : ServicePacket)
    (h : ¬ TurnedAway ind (copyPacket ind stack).value) :
    (rxHandler r ind stack).value =
      (dispatch r ind.srcAddr (copyPacket ind stack).value).value := by
  have hversion : ¬ (copyPacket ind stack).value.version ≠ servicesVersion := by
    simp only [TurnedAway, not_or] at h
    exact h.2.2.2
  rw [rxHandler_copied r ind stack h, Traced.value_bind, if_neg hversion, Traced.value_bind]

theorem rxHandler_responds (r : Registry) (ind : Indication) (stack : ServicePacket)
    (h : Responds ind stack) :
    (rxHandler r ind stack).value =
      .response r.lastReqCb ind.srcAddr (copyPacket ind stack).value.method
        (copyPacket ind stack).value.data := by
  rw [rxHandler_dispatch r ind stack h.1, dispatch, if_pos h.2, respond]
  cases r.lastReqCb with
  | none => rfl
  | some callback => rfl

theorem rxHandler_not_responds (r : Registry) (ind : Indication) (stack : ServicePacket)
    (h : ¬ Responds ind stack) :
    (rxHandler r ind stack).value = .reject ∨
      ∃ target method data, (rxHandler r ind stack).value =
        .serve target ind.srcAddr method data := by
  by_cases haway : TurnedAway ind (copyPacket ind stack).value
  · exact Or.inl (rxHandler_turnedAway r ind stack haway)
  · have hrequest : ¬ (copyPacket ind stack).value.isResponse = true := fun hr => h ⟨haway, hr⟩
    rw [rxHandler_dispatch r ind stack haway, dispatch, if_neg hrequest, serve]
    cases r.lookup (copyPacket ind stack).value.name with
    | none => exact Or.inl rfl
    | some target =>
      right
      cases target with
      | intVar var => exact ⟨_, _, _, rfl⟩
      | floatVar var => exact ⟨_, _, _, rfl⟩
      | function fn => exact ⟨_, _, _, rfl⟩
      | service fn => exact ⟨_, _, _, rfl⟩

/-- The status a callback is given with a response is that of a response packet. -/
def Cause.Proper (cause : Cause) : Prop :=
  ∀ srcAddr method data, cause = .response srcAddr method data →
    ∃ pkt : ServicePacket, pkt.isResponse = true ∧ method = pkt.method

/-- A call was made with the callback of its request, before any later request was accepted. -/
structure Invocation.Proper (i : Invocation) (accepted : List Accepted) : Prop where
  registered : (accepted[i.request]?).map Accepted.callback = some i.callback
  current : i.accepted = i.request + 1
  status : i.cause.Proper

theorem Invocation.Proper.request_lt {i : Invocation} {accepted : List Accepted}
    (h : i.Proper accepted) : i.request < accepted.length := by
  by_contra hlt
  have hnone : accepted[i.request]? = none := List.getElem?_eq_none (Nat.le_of_not_lt hlt)
  have hsome := h.registered
  rw [hnone] at hsome
  exact absurd hsome.symm (Option.some_ne_none _)

theorem Invocation.Proper.append {i : Invocation} {accepted : List Accepted}
    (h : i.Proper accepted) (later : List Accepted) : i.Proper (accepted ++ later) := by
  constructor
  case registered =>
    rw [List.getElem?_append_left h.request_lt]
    exact h.registered
  case current => exact h.current
  case status => exact h.status

namespace AquilaServices

variable {τ : Type}

/-- The waiting callback belongs to the last accepted request and has not been called. -/
structure Pending (s : AquilaServices τ) (callback : ℕ) : Prop where
  last : s.lastRequest + 1 = s.accepted.length
  registered : (s.accepted[s.lastRequest]?).map Accepted.callback = some callback
  fresh : ∀ i ∈ s.invoked, i.request < s.lastRequest

/-- What holds at every step boundary. -/
structure Consistent (s : AquilaServices τ) : Prop where
  waiting : s.waitingResponse = s.registry.lastReqCb.isSome
  pending : ∀ callback, s.registry.lastReqCb = some callback → s.Pending callback
  proper : ∀ i ∈ s.invoked, i.Proper s.accepted
  once : (s.invoked.map Invocation.request).Nodup

theorem init_consistent (registry : Registry) (time : τ) : (init registry time).Consistent where
  waiting := rfl
  pending _ h := absurd h.symm (Option.some_ne_none _)
  proper _ h := absurd h List.not_mem_nil
  once := List.nodup_nil

/-! ### Calls of user code -/

/-- A call only sends, or it is a request that finds the slot empty and registers a callback. -/
theorem call_cases (s : AquilaServices τ) (c : ServiceCall τ) :
    (∃ sent, s.call c = { s with sent := sent }) ∨
      s.waitingResponse = false ∧ ∃ sent destAddr callback millis,
        s.call c = wait { s with sent := sent } destAddr callback millis := by
  cases c with
  | request destAddr method name callback data millis =>
    rw [call]
    split
    case isTrue => exact Or.inl ⟨s.sent, rfl⟩
    case isFalse hw =>
      cases callback with
      | none => exact Or.inl ⟨_, rfl⟩
      | some callback =>
        right
        rw [Bool.not_eq_true] at hw
        exact ⟨hw, _, destAddr, callback, millis, rfl⟩
  | response destAddr method data => exact Or.inl ⟨_, rfl⟩

theorem Consistent.withSent {s : AquilaServices τ} (h : s.Consistent) (sent : List Outgoing) :
    Consistent { s with sent := sent } where
  waiting := h.waiting
  pending callback hcb :=
    ⟨(h.pending callback hcb).last, (h.pending callback hcb).registered,
      (h.pending callback hcb).fresh⟩
  proper := h.proper
  once := h.once

/-- An accepted request becomes the pending one; all callbacks called before are older. -/
theorem Consistent.wait {s : AquilaServices τ} (h : s.Consistent) (destAddr : Word)
    (callback : ℕ) (millis : τ) : (s.wait destAddr callback millis).Consistent where
  waiting := rfl
  pending cb hcb := by
    cases hcb
    constructor
    case last => simp only [AquilaServices.wait, List.length_append, List.length_singleton]
    case registered =>
      change ((s.accepted ++ [⟨destAddr, callback⟩])[s.accepted.length]?).map Accepted.callback = _
      rw [List.getElem?_concat_length]
      rfl
    case fresh => exact fun i hi => (h.proper i hi).request_lt
  proper i hi := (h.proper i hi).append _
  once := h.once

theorem Consistent.call {s : AquilaServices τ} (h : s.Consistent) (c : ServiceCall τ) :
    (s.call c).Consistent := by
  rcases s.call_cases c with ⟨sent, hcall⟩ | ⟨-, sent, destAddr, callback, millis, hcall⟩
  · rw [hcall]
    exact h.withSent sent
  · rw [hcall]
    exact (h.withSent sent).wait destAddr callback millis

theorem Consistent.run_call {s : AquilaServices τ} (h : s.Consistent)
    (calls : List (ServiceCall τ)) : (run AquilaServices.call s calls).Consistent :=
  run_invariant (fun _ c h => h.call c) h calls

/-- While a callback waits, user code can only send packets. -/
theorem run_call_waiting (s : AquilaServices τ) (h : s.waitingResponse = true)
    (calls : List (ServiceCall τ)) : ∃ sent, run call s calls = { s with sent := sent } := by
  induction calls generalizing s with
  | nil => exact ⟨s.sent, rfl⟩
  | cons c calls ih =>
    rcases s.call_cases c with ⟨sent, hcall⟩ | ⟨hidle, -⟩
    · rw [run_cons, hcall]
      exact ih { s with sent := sent } h
    · exact absurd (hidle.symm.trans h) Bool.false_ne_true

/-! ### Clearing the slot -/

theorem complete_none (s : AquilaServices τ) (cause : Cause) (calls : List (ServiceCall τ))
    (h : s.registry.lastReqCb = none) :
    s.complete cause calls =
      { s with registry.lastReqCb := none, waitingResponse := false } := by
  rw [complete, invoke, h]

/-- The waiting callback is called once, and what it requests is refused. -/
theorem complete_some (s : AquilaServices τ) (cause : Cause) (calls : List (ServiceCall τ))
    {callback : ℕ} (h : s.registry.lastReqCb = some callback) (hw : s.waitingResponse = true) :
    ∃ sent, s.complete cause calls =
      { s with
        registry.lastReqCb := none
        waitingResponse := false
        sent := sent
        invoked := s.invoked ++ [⟨s.lastRequest, callback, s.accepted.length, cause⟩] } := by
  obtain ⟨sent, hrun⟩ := run_call_waiting
    { s with invoked := s.invoked ++ [⟨s.lastRequest, callback, s.accepted.length, cause⟩] } hw
    calls
  refine ⟨sent, ?_⟩
  rw [complete, invoke, h]
  dsimp only
  rw [hrun]

theorem Consistent.waiting_some {s : AquilaServices τ} (h : s.Consistent) {callback : ℕ}
    (hcb : s.registry.lastReqCb = some callback) : s.waitingResponse = true := by
  rw [h.waiting, hcb]
  rfl

theorem Consistent.pending_of_waiting {s : AquilaServices τ} (h : s.Consistent)
    (hw : s.waitingResponse = true) :
    ∃ callback, s.registry.lastReqCb = some callback ∧ s.Pending callback := by
  rw [h.waiting, Option.isSome_iff_exists] at hw
  rcases hw with ⟨callback, hcb⟩
  exact ⟨callback, hcb, h.pending callback hcb⟩

theorem Consistent.complete {s : AquilaServices τ} (h : s.Consistent) {cause : Cause}
    (hcause : cause.Proper) (calls : List (ServiceCall τ)) :
    (s.complete cause calls).Consistent := by
  cases hcb : s.registry.lastReqCb with
  | none =>
    rw [s.complete_none cause calls hcb]
    exact ⟨rfl, fun _ hnone => absurd hnone.symm (Option.some_ne_none _), h.proper, h.once⟩
  | some callback =>
    have hpending := h.pending callback hcb
    rcases s.complete_some cause calls hcb (h.waiting_some hcb) with ⟨sent, hcomplete⟩
    rw [hcomplete]
    constructor
    case waiting => rfl
    case pending => exact fun _ hnone => absurd hnone.symm (Option.some_ne_none _)
    case proper =>
      intro i hi
      rcases List.mem_append.mp hi with hi | hi
      · exact h.proper i hi
      · cases List.mem_singleton.mp hi
        exact ⟨hpending.registered, hpending.last.symm, hcause⟩
    case once =>
      rw [List.map_append, List.map_singleton]
      apply List.Nodup.append h.once (List.nodup_singleton _)
      intro n hn hlast
      rcases List.mem_map.mp hn with ⟨i, hi, rfl⟩
      exact absurd (List.mem_singleton.mp hlast) (hpending.fresh i hi).ne

/-! ### Runs -/

theorem Consistent.serve {s : AquilaServices τ} (h : s.Consistent) (target : Target)
    (reqAddr : Word) (calls : List (ServiceCall τ)) (text : List Byte) :
    (s.serve target reqAddr calls text).Consistent := by
  cases target with
  | intVar var => exact h.call (.response reqAddr r200 text)
  | floatVar var => exact h.call (.response reqAddr r200 text)
  | function fn => exact (h.run_call calls).call (.response reqAddr r200 text)
  | service fn => exact h.run_call calls

theorem receive_responds (s : AquilaServices τ) (ind : Indication) (stack : ServicePacket)
    (calls : List (ServiceCall τ)) (text : List Byte) (h : Responds ind stack) :
    s.receive ind stack calls text =
      s.complete (.response ind.srcAddr (copyPacket ind stack).value.method
        (copyPacket ind stack).value.data) calls := by
  rw [receive, rxHandler_responds s.registry ind stack h]

theorem receive_not_responds (s : AquilaServices τ) (ind : Indication) (stack : ServicePacket)
    (calls : List (ServiceCall τ)) (text : List Byte) (h : ¬ Responds ind stack) :
    s.receive ind stack calls text = s ∨
      ∃ target, s.receive ind stack calls text = s.serve target ind.srcAddr calls text := by
  rw [receive]
  rcases rxHandler_not_responds s.registry ind stack h with hreject | ⟨target, method, data, hserve⟩
  · rw [hreject]
    exact Or.inl rfl
  · rw [hserve]
    exact Or.inr ⟨target, rfl⟩

theorem cause_proper (ind : Indication) (stack : ServicePacket) (h : Responds ind stack) :
    Cause.Proper (.response ind.srcAddr (copyPacket ind stack).value.method
      (copyPacket ind stack).value.data) := by
  intro srcAddr method data hcause
  cases hcause
  exact ⟨_, h.2, rfl⟩

theorem Consistent.step {s : AquilaServices τ} (h : s.Consistent) (expired : τ → τ → Bool)
    (l : ServiceStep τ) : (s.step expired l).Consistent := by
  cases l with
  | call c => exact h.call c
  | receive ind stack calls text =>
    rw [AquilaServices.step]
    by_cases hr : Responds ind stack
    · rw [s.receive_responds ind stack calls text hr]
      exact h.complete (cause_proper ind stack hr) calls
    · rcases s.receive_not_responds ind stack calls text hr with hsame | ⟨target, hserve⟩
      · rwa [hsame]
      · rw [hserve]
        exact h.serve target ind.srcAddr calls text
  | loop now calls =>
    rw [AquilaServices.step, AquilaServices.loop]
    split
    case isTrue => exact h.complete (fun _ _ _ htimeout => Cause.noConfusion htimeout) calls
    case isFalse => exact h

/-- Every request is answered at most once, by its own callback and before the next request. -/
structure AtMostOnce (s : AquilaServices τ) : Prop where
  waiting : s.waitingResponse = true ↔ s.registry.lastReqCb ≠ none
  once : (s.invoked.map Invocation.request).Nodup
  own : ∀ i ∈ s.invoked, ∃ r, s.accepted[i.request]? = some r ∧ r.callback = i.callback
  /-- no request after this one had been accepted when the callback was called -/
  current : ∀ i ∈ s.invoked, i.accepted = i.request + 1
  /-- the callback is given the status of a response packet, or `R408` -/
  status : ∀ i ∈ s.invoked, i.cause = .timeout ∨ ∃ srcAddr data, ∃ pkt : ServicePacket,
    pkt.isResponse = true ∧ i.cause = .response srcAddr pkt.method data

theorem Consistent.atMostOnce {s : AquilaServices τ} (h : s.Consistent) : s.AtMostOnce where
  waiting := by rw [h.waiting, Option.isSome_iff_ne_none]
  once := h.once
  own i hi := by
    rcases Option.map_eq_some_iff.mp (h.proper i hi).registered with ⟨r, hr, hcallback⟩
    exact ⟨r, hr, hcallback⟩
  current i hi := (h.proper i hi).current
  status i hi := by
    cases hcause : i.cause with
    | timeout => exact Or.inl rfl
    | response srcAddr method data =>
      rcases (h.proper i hi).status srcAddr method data hcause with ⟨pkt, hresponse, rfl⟩
      exact Or.inr ⟨srcAddr, data, pkt, hresponse, rfl⟩

/-- In every run, whatever user code requests while it runs, a callback is called at most once. -/
theorem run_atMostOnce (expired : τ → τ → Bool) (registry : Registry) (time : τ)
    (ls : List (ServiceStep τ)) : (run (step expired) (init registry time) ls).AtMostOnce :=
  (run_invariant (I := Consistent) (fun _ l h => h.step expired l) (init_consistent registry time)
    ls).atMostOnce

end AquilaServices

end Aquila.Services
