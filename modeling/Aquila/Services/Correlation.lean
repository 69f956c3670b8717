import Aquila.Services.Requests

/-! # Correlation of responses with requests

The source address of a response is passed on but never compared with the address that
the request was sent to, so any node can complete or cancel a request.
-/

namespace Aquila.Services
open Library Mesh

namespace AquilaServices

variable {τ : Type}

/-- Callbacks of unicast requests are called by a timeout or by the node that was asked. -/
def OnlyFromDest (s : AquilaServices τ) : Prop :=
  ∀ i ∈ s.invoked, ∀ r, s.accepted[i.request]? = some r → r.destAddr ≠ broadcast →
    i.cause = .timeout ∨ ∃ method data, i.cause = .response r.destAddr method data

def Awaits (s : AquilaServices τ) (destAddr : Word) : Prop :=
  s.registry.lastReqCb ≠ none ∧
    (s.accepted[s.lastRequest]?).map Accepted.destAddr = some destAddr

/-- A response from another node arrives while a unicast request waits. -/
def Foreign (s : AquilaServices τ) : ServiceStep τ → Prop
  | .receive ind stack _ _ =>
    Responds ind stack ∧ ∃ destAddr, s.Awaits destAddr ∧ destAddr ≠ broadcast ∧
      ind.srcAddr ≠ destAddr
  | _ => False

/-- A response from another node neither completes nor cancels the waiting request. -/
def Undisturbed (expired : τ → τ → Bool) (s : AquilaServices τ) (l : ServiceStep τ) : Prop :=
  s.Foreign l → (s.step expired l).registry.lastReqCb = s.registry.lastReqCb ∧
    (s.step expired l).waitingResponse = s.waitingResponse

/-- Every response clears the slot, whoever sent it. -/
theorem not_foreign_of_undisturbed (expired : τ → τ → Bool) (s : AquilaServices τ)
    (l : ServiceStep τ) (h : s.Undisturbed expired l) : ¬ s.Foreign l := by
  intro hforeign
  rcases h hforeign with ⟨hslot, _⟩
  cases l with
  | receive ind stack calls text =>
    rcases hforeign with ⟨hresponds, _, hawaits, _⟩
    rw [step, s.receive_responds ind stack calls text hresponds] at hslot
    exact hawaits.1 hslot.symm
  | call c => exact hforeign
  | loop now calls => exact hforeign

theorem undisturbed_of_not_foreign (expired : τ → τ → Bool) (s : AquilaServices τ)
    (l : ServiceStep τ) (h : ¬ s.Foreign l) : s.Undisturbed expired l :=
  fun hforeign => absurd hforeign h

/-! ### Runs without foreign responses -/

theorem OnlyFromDest.append {s s' : AquilaServices τ} (h : s.OnlyFromDest) (hc : s.Consistent)
    {later : List Accepted} (haccepted : s'.accepted = s.accepted ++ later)
    (hinvoked : s'.invoked = s.invoked) : s'.OnlyFromDest := by
  intro i hi r hr
  rw [hinvoked] at hi
  rw [haccepted, List.getElem?_append_left (hc.proper i hi).request_lt] at hr
  exact h i hi r hr

theorem OnlyFromDest.call {s : AquilaServices τ} (h : s.OnlyFromDest) (hc : s.Consistent)
    (c : ServiceCall τ) : (s.call c).OnlyFromDest := by
  rcases s.call_cases c with ⟨sent, hcall⟩ | ⟨-, sent, destAddr, callback, millis, hcall⟩
  · rw [hcall]
    exact h
  · rw [hcall]
    exact h.append hc rfl rfl

theorem OnlyFromDest.run_call {s : AquilaServices τ} (h : s.OnlyFromDest) (hc : s.Consistent)
    (calls : List (ServiceCall τ)) : (run AquilaServices.call s calls).OnlyFromDest :=
  (run_invariant (I := fun t : AquilaServices τ => t.Consistent ∧ t.OnlyFromDest)
    (fun _ c ⟨hc, h⟩ => ⟨hc.call c, h.call hc c⟩) ⟨hc, h⟩ calls).2

theorem OnlyFromDest.serve {s : AquilaServices τ} (h : s.OnlyFromDest) (hc : s.Consistent)
    (target : Target) (reqAddr : Word) (calls : List (ServiceCall τ)) (text : List Byte) :
    (s.serve target reqAddr calls text).OnlyFromDest := by
  cases target with
  | intVar var => exact h.call hc (.response reqAddr r200 text)
  | floatVar var => exact h.call hc (.response reqAddr r200 text)
  | function fn =>
    exact (h.run_call hc calls).call (hc.run_call calls) (.response reqAddr r200 text)
  | service fn => exact h.run_call hc calls

theorem OnlyFromDest.complete {s : AquilaServices τ} (h : s.OnlyFromDest) (hc : s.Consistent)
    {cause : Cause} (calls : List (ServiceCall τ))
    (hcause : ∀ destAddr, s.Awaits destAddr → destAddr ≠ broadcast →
      cause = .timeout ∨ ∃ method data, cause = .response destAddr method data) :
    (s.complete cause calls).OnlyFromDest := by
  cases hcb : s.registry.lastReqCb with
  | none =>
    rw [s.complete_none cause calls hcb]
    exact h
  | some callback =>
    rcases s.complete_some cause calls hcb (hc.waiting_some hcb) with ⟨sent, hcomplete⟩
    rw [hcomplete]
    intro i hi r hr hunicast
    rcases List.mem_append.mp hi with hi | hi
    · exact h i hi r hr hunicast
    · cases List.mem_singleton.mp hi
      have hslot : s.registry.lastReqCb ≠ none := hcb ▸ Option.some_ne_none callback
      exact hcause r.destAddr ⟨hslot, congrArg (Option.map Accepted.destAddr) hr⟩ hunicast

theorem OnlyFromDest.step {s : AquilaServices τ} (h : s.OnlyFromDest) (hc : s.Consistent)
    (expired : τ → τ → Bool) (l : ServiceStep τ) (hl : ¬ s.Foreign l) :
    (s.step expired l).OnlyFromDest := by
  cases l with
  | call c => exact h.call hc c
  | receive ind stack calls text =>
    rw [AquilaServices.step]
    by_cases hr : Responds ind stack
    · rw [s.receive_responds ind stack calls text hr]
      apply h.complete hc
      intro destAddr hawaits hunicast
      right
      have hsource : ind.srcAddr = destAddr := by
        by_contra hne
        exact hl ⟨hr, destAddr, hawaits, hunicast, hne⟩
      rw [hsource]
      exact ⟨_, _, rfl⟩
    · rcases s.receive_not_responds ind stack calls text hr with hsame | ⟨target, hserve⟩
      · rwa [hsame]
      · rw [hserve]
        exact h.serve hc target ind.srcAddr calls text
  | loop now calls =>
    rw [AquilaServices.step, AquilaServices.loop]
    split
    case isTrue => exact h.complete hc calls (fun _ _ _ => Or.inl rfl)
    case isFalse => exact h

/-- Callbacks hear only from the node that was asked, and other nodes do not disturb a request,
exactly in the runs in which no other node answers while a unicast request waits. -/
theorem run_onlyFromDest_iff (expired : τ → τ → Bool) (registry : Registry) (time : τ)
    (ls : List (ServiceStep τ)) :
    (Guarded (step expired) (Undisturbed expired) (init registry time) ls ∧
        (run (step expired) (init registry time) ls).OnlyFromDest) ↔
      Guarded (step expired) (fun s l => ¬ s.Foreign l) (init registry time) ls := by
  constructor
  · intro h
    exact h.1.mono (not_foreign_of_undisturbed expired)
  · intro h
    constructor
    · exact h.mono (undisturbed_of_not_foreign expired)
    · have hinit : (init registry time).OnlyFromDest := fun i hi => absurd hi List.not_mem_nil
      exact (run_guarded (I := fun t : AquilaServices τ => t.Consistent ∧ t.OnlyFromDest)
        (fun _ l ⟨hc, h⟩ hl => ⟨hc.step expired l, h.step hc expired l hl⟩)
        ⟨init_consistent registry time, hinit⟩ h).2

def bareResponse (srcAddr : Word) : Indication :=
  { bareRequest 0 0 with srcAddr := srcAddr, payload := [servicesVersion, r200, 0, 0] }

/-- Node 2 is asked and node 3 answers. -/
theorem not_onlyFromDest :
    ¬ ∀ (expired : ℕ → ℕ → Bool) (registry : Registry) (time : ℕ) (ls : List (ServiceStep ℕ)),
      (run (step expired) (init registry time) ls).OnlyFromDest := by
  intro hall
  have hrun := hall (fun _ _ => false) .empty 0
    [.call (.request 0x0002#16 0 [] (some 5) [] 0),
      .receive (bareResponse 0x0003#16) (fun _ => 0) [] []]
  have hcall := hrun ⟨0, 5, 1, .response 0x0003#16 r200 []⟩ (by decide +kernel)
    ⟨0x0002#16, 5⟩ rfl (by decide)
  rcases hcall with htimeout | ⟨method, data, hresponse⟩
  · exact Cause.noConfusion htimeout
  · exact absurd (Cause.response.inj hresponse).1 (by decide)

end AquilaServices

end Aquila.Services
