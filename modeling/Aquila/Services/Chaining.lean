import Aquila.Services.Correlation

/-! # Chained requests

The waiting callback runs before `lastReqCb` and `waitingResponse` are cleared, so a request
made in it is dropped although the request before it has just been answered or timed out.
-/

namespace Aquila.Services
open Library Mesh

variable {τ : Type}

def ServiceCall.IsRequest : ServiceCall τ → Prop
  | .request .. => True
  | .response .. => False

def ServiceStep.calls : ServiceStep τ → List (ServiceCall τ)
  | .call c => [c]
  | .receive _ _ calls _ => calls
  | .loop _ calls => calls

/-- Functions and services are user code. -/
def Target.calls (calls : List (ServiceCall τ)) : Target → List (ServiceCall τ)
  | .intVar _ => []
  | .floatVar _ => []
  | .function _ => calls
  | .service _ => calls

namespace AquilaServices

def calling (s : AquilaServices τ) (callback : ℕ) (cause : Cause) : AquilaServices τ :=
  { s with invoked := s.invoked ++ [⟨s.lastRequest, callback, s.accepted.length, cause⟩] }

/-- `lastReqCb` at its start, and what it calls. -/
def enter (s : AquilaServices τ) (cause : Cause) (calls : List (ServiceCall τ)) :
    AquilaServices τ × List (ServiceCall τ) :=
  match s.registry.lastReqCb with
  | none => (s, [])
  | some callback => (s.calling callback cause, calls)

/-- The state in which the user code of a step starts, and what it calls. -/
def userCode (expired : τ → τ → Bool) (s : AquilaServices τ) :
    ServiceStep τ → AquilaServices τ × List (ServiceCall τ)
  | .call c => (s, [c])
  | .receive ind stack calls _ =>
    match (rxHandler s.registry ind stack).value with
    | .reject => (s, [])
    | .response _ srcAddr method data => s.enter (.response srcAddr method data) calls
    | .serve target _ _ _ => (s, target.calls calls)
  | .loop now calls => if expired s.lastRequestTime now then s.enter .timeout calls else (s, [])

/-- All requests that registered a callback have been answered or have timed out. -/
def Free (s : AquilaServices τ) : Prop :=
  ∀ n < s.accepted.length, n ∈ s.invoked.map Invocation.request

/-- A request that finds the slot free is transmitted and registers its callback. -/
def Takes (s : AquilaServices τ) : ServiceCall τ → Prop
  | .request destAddr method name callback data millis =>
    let s' := s.call (.request destAddr method name callback data millis)
    s.Free → s'.sent = s.sent ++ [servicePacket destAddr method name data] ∧
      ∀ cb, callback = some cb → s'.accepted = s.accepted ++ [⟨destAddr, cb⟩] ∧
        s'.registry.lastReqCb = some cb ∧ s'.waitingResponse = true
  | .response .. => True

/-- The requests made in a step are taken, and a callback that they register is not cleared
before the step ends. -/
structure Honours (expired : τ → τ → Bool) (s : AquilaServices τ) (l : ServiceStep τ) : Prop where
  taken : Guarded call Takes (s.userCode expired l).1 (s.userCode expired l).2
  kept : s.accepted.length < (s.step expired l).accepted.length →
    (s.step expired l).waitingResponse = true ∧
      (s.step expired l).registry.lastReqCb =
        (s.step expired l).accepted.getLast?.map Accepted.callback

def Ends (expired : τ → τ → Bool) (s : AquilaServices τ) : ServiceStep τ → Prop
  | .call _ => False
  | .receive ind stack _ _ => Responds ind stack
  | .loop now _ => expired s.lastRequestTime now = true

def Delivers (expired : τ → τ → Bool) (s : AquilaServices τ) (l : ServiceStep τ) : Prop :=
  s.registry.lastReqCb ≠ none ∧ s.Ends expired l

/-- The waiting callback is called in the step and makes a request. -/
def Chains (expired : τ → τ → Bool) (s : AquilaServices τ) (l : ServiceStep τ) : Prop :=
  s.Delivers expired l ∧ ∃ c ∈ l.calls, c.IsRequest

/-! ### User code in the steps -/

theorem invoke_enter (s : AquilaServices τ) (cause : Cause) (calls : List (ServiceCall τ)) :
    s.invoke cause calls = run call (s.enter cause calls).1 (s.enter cause calls).2 := by
  rw [invoke, enter]
  cases s.registry.lastReqCb with
  | none => rfl
  | some callback => rfl

/-- Clearing an empty slot changes nothing. -/
theorem Consistent.complete_none {s : AquilaServices τ} (h : s.Consistent) (cause : Cause)
    (calls : List (ServiceCall τ)) (hcb : s.registry.lastReqCb = none) :
    s.complete cause calls = s := by
  have hw : s.waitingResponse = false := by rw [h.waiting, hcb, Option.isSome_none]
  rw [s.complete_none cause calls hcb]
  conv_lhs => rw [← hcb, ← hw]

theorem step_ends (expired : τ → τ → Bool) (s : AquilaServices τ) (l : ServiceStep τ)
    (h : s.Ends expired l) :
    ∃ cause, s.userCode expired l = s.enter cause l.calls ∧
      s.step expired l = s.complete cause l.calls := by
  cases l with
  | call c => exact absurd h id
  | receive ind stack calls text =>
    constructor
    constructor
    · rw [userCode, rxHandler_responds s.registry ind stack h]
      rfl
    · exact s.receive_responds ind stack calls text h
  | loop now calls =>
    have hexpired : expired s.lastRequestTime now = true := h
    constructor
    constructor
    · rw [userCode, if_pos hexpired]
      rfl
    · rw [step, loop, if_pos hexpired]
      rfl

theorem serve_calls (s : AquilaServices τ) (target : Target) (reqAddr : Word)
    (calls : List (ServiceCall τ)) (text : List Byte) :
    ∃ sent, s.serve target reqAddr calls text =
      { run call s (target.calls calls) with sent := sent } := by
  cases target with
  | intVar var => exact ⟨_, rfl⟩
  | floatVar var => exact ⟨_, rfl⟩
  | function fn => exact ⟨_, rfl⟩
  | service fn => exact ⟨_, rfl⟩

theorem step_not_ends (expired : τ → τ → Bool) (s : AquilaServices τ) (l : ServiceStep τ)
    (h : ¬ s.Ends expired l) :
    ∃ calls sent, s.userCode expired l = (s, calls) ∧
      s.step expired l = { run call s calls with sent := sent } := by
  cases l with
  | call c => exact ⟨[c], _, rfl, rfl⟩
  | receive ind stack calls text =>
    rw [userCode, step, receive]
    rcases rxHandler_not_responds s.registry ind stack h with hv | ⟨target, method, data, hv⟩
    · rw [hv]
      exact ⟨[], s.sent, rfl, rfl⟩
    · rw [hv]
      rcases s.serve_calls target ind.srcAddr calls text with ⟨sent, hserve⟩
      exact ⟨target.calls calls, sent, rfl, hserve⟩
  | loop now calls =>
    have hexpired : ¬ expired s.lastRequestTime now = true := h
    rw [userCode, if_neg hexpired, step, loop, if_neg hexpired]
    exact ⟨[], s.sent, rfl, rfl⟩

/-- Steps that do not call `lastReqCb` leave what their user code leaves, up to an answer. -/
theorem Consistent.step_not_delivers {s : AquilaServices τ} (hc : s.Consistent)
    (expired : τ → τ → Bool) (l : ServiceStep τ) (h : ¬ s.Delivers expired l) :
    ∃ calls sent, s.userCode expired l = (s, calls) ∧
      s.step expired l = { run AquilaServices.call s calls with sent := sent } := by
  by_cases hends : s.Ends expired l
  · have hcb : s.registry.lastReqCb = none := by
      by_contra hne
      exact h ⟨hne, hends⟩
    rcases s.step_ends expired l hends with ⟨cause, hcode, hstep⟩
    rw [enter, hcb] at hcode
    rw [hc.complete_none cause l.calls hcb] at hstep
    exact ⟨[], s.sent, hcode, hstep⟩
  · exact s.step_not_ends expired l hends

/-! ### The slot and the requests that are over -/

/-- Only the last request can still wait. -/
def Settled (s : AquilaServices τ) : Prop :=
  ∀ n < s.accepted.length, n ∈ s.invoked.map Invocation.request ∨
    s.waitingResponse = true ∧ n = s.lastRequest

theorem Consistent.not_free {s : AquilaServices τ} (h : s.Consistent)
    (hw : s.waitingResponse = true) : ¬ s.Free := by
  intro hfree
  rcases h.pending_of_waiting hw with ⟨callback, -, hpending⟩
  rcases List.mem_map.mp (hfree s.lastRequest (hpending.last ▸ Nat.lt_succ_self _)) with
    ⟨i, hi, hlast⟩
  exact absurd hlast (hpending.fresh i hi).ne

theorem Settled.call {s : AquilaServices τ} (h : s.Settled) (c : ServiceCall τ) :
    (s.call c).Settled := by
  rcases s.call_cases c with ⟨sent, hcall⟩ | ⟨hidle, sent, destAddr, callback, millis, hcall⟩
  · rw [hcall]
    exact h
  · rw [hcall]
    intro n hn
    rw [wait, List.length_append, List.length_singleton] at hn
    rcases Nat.lt_succ_iff_lt_or_eq.mp hn with hold | rfl
    · left
      apply (h n hold).resolve_right
      intro hwaiting
      exact absurd (hidle.symm.trans hwaiting.1) Bool.false_ne_true
    · exact Or.inr ⟨rfl, rfl⟩

theorem Settled.free {s : AquilaServices τ} (h : s.Settled) (callback : ℕ) (cause : Cause) :
    (s.calling callback cause).Free := by
  intro n hn
  rw [calling, List.map_append, List.map_singleton, List.mem_append, List.mem_singleton]
  exact (h n hn).imp_right And.right

theorem Settled.step {s : AquilaServices τ} (h : s.Settled) (hc : s.Consistent)
    (expired : τ → τ → Bool) (l : ServiceStep τ) : (s.step expired l).Settled := by
  by_cases hl : s.Delivers expired l
  · rcases s.step_ends expired l hl.2 with ⟨cause, -, hstep⟩
    rcases Option.ne_none_iff_exists'.mp hl.1 with ⟨callback, hcb⟩
    rcases s.complete_some cause l.calls hcb (hc.waiting_some hcb) with ⟨sent, hcomplete⟩
    rw [hstep, hcomplete]
    exact fun n hn => Or.inl (h.free callback cause n hn)
  · rcases hc.step_not_delivers expired l hl with ⟨calls, sent, -, hstep⟩
    rw [hstep]
    exact run_invariant (I := Settled) (fun _ c hs => hs.call c) h calls

/-! ### Requests that are taken -/

/-- When no callback waits a request is taken, and while one waits the slot is not free. -/
theorem Consistent.takes {s : AquilaServices τ} (h : s.Consistent) (c : ServiceCall τ) :
    s.Takes c := by
  cases c with
  | request destAddr method name callback data millis =>
    intro hfree
    have hw : ¬ s.waitingResponse = true := fun hw => h.not_free hw hfree
    rw [AquilaServices.call, if_neg hw]
    cases callback with
    | none => exact ⟨rfl, fun _ hnone => absurd hnone.symm (Option.some_ne_none _)⟩
    | some callback =>
      constructor
      · rfl
      · rintro cb hcb
        cases hcb
        exact ⟨rfl, rfl, rfl⟩
  | response destAddr method data => trivial

theorem Consistent.guarded_takes {s : AquilaServices τ} (h : s.Consistent)
    (calls : List (ServiceCall τ)) : Guarded AquilaServices.call Takes s calls := by
  induction calls generalizing s with
  | nil => trivial
  | cons c calls ih => exact ⟨h.takes c, ih (h.call c)⟩

theorem run_call_accepted (s : AquilaServices τ) (calls : List (ServiceCall τ))
    (h : s.accepted.length < (run call s calls).accepted.length) :
    (run call s calls).waitingResponse = true := by
  have hcall (t : AquilaServices τ) (c : ServiceCall τ)
      (ht : s.accepted.length < t.accepted.length → t.waitingResponse = true) :
      s.accepted.length < (t.call c).accepted.length → (t.call c).waitingResponse = true := by
    rcases t.call_cases c with ⟨sent, hsent⟩ | ⟨-, sent, destAddr, callback, millis, hwait⟩
    · rw [hsent]
      exact ht
    · rw [hwait]
      exact fun _ => rfl
  exact run_invariant hcall (fun hlt => absurd hlt (lt_irrefl _)) calls h

theorem Consistent.lastReqCb_eq {s : AquilaServices τ} (h : s.Consistent)
    (hw : s.waitingResponse = true) :
    s.registry.lastReqCb = s.accepted.getLast?.map Accepted.callback := by
  rcases h.pending_of_waiting hw with ⟨callback, hcb, hpending⟩
  rw [hcb, List.getLast?_eq_getElem?, ← hpending.last, Nat.add_sub_cancel, hpending.registered]

/-- A callback that requests nothing can only send answers. -/
theorem guarded_takes_of_no_request (s : AquilaServices τ) (calls : List (ServiceCall τ))
    (h : ∀ c ∈ calls, ¬ c.IsRequest) : Guarded call Takes s calls := by
  induction calls generalizing s with
  | nil => trivial
  | cons c calls ih =>
    rw [List.forall_mem_cons] at h
    cases c with
    | request destAddr method name callback data millis => exact absurd trivial h.1
    | response destAddr method data => exact ⟨trivial, ih _ h.2⟩

/-- Before the slot is cleared its request may be over, but no other one is taken. -/
theorem not_guarded_takes {s : AquilaServices τ} (hw : s.waitingResponse = true) (hfree : s.Free)
    (calls : List (ServiceCall τ)) (h : ∃ c ∈ calls, c.IsRequest) :
    ¬ Guarded call Takes s calls := by
  induction calls generalizing s with
  | nil =>
    rcases h with ⟨c, hc, _⟩
    exact absurd hc List.not_mem_nil
  | cons c calls ih =>
    rintro ⟨htakes, hrest⟩
    cases c with
    | request destAddr method name callback data millis =>
      -- `waitingResponse` is still set, so the request returns at once
      have hsent := (htakes hfree).1
      rw [call, if_pos hw] at hsent
      exact absurd (List.append_right_eq_self.mp hsent.symm) (List.cons_ne_nil _ _)
    | response destAddr method data =>
      rcases h with ⟨c, hc, hreq⟩
      rcases List.mem_cons.mp hc with rfl | hlater
      · exact hreq
      · exact ih (s := s.send _) hw hfree ⟨c, hlater, hreq⟩ hrest

/-! ### Steps and runs -/

theorem honours_iff (expired : τ → τ → Bool) {s : AquilaServices τ} (hc : s.Consistent)
    (hs : s.Settled) (l : ServiceStep τ) : s.Honours expired l ↔ ¬ s.Chains expired l := by
  by_cases hl : s.Delivers expired l
  · rcases s.step_ends expired l hl.2 with ⟨cause, hcode, hstep⟩
    rcases Option.ne_none_iff_exists'.mp hl.1 with ⟨callback, hcb⟩
    have hw := hc.waiting_some hcb
    rcases s.complete_some cause l.calls hcb hw with ⟨sent, hcomplete⟩
    rw [enter, hcb] at hcode
    constructor
    · intro h hchains
      have htaken := h.taken
      rw [hcode] at htaken
      have hcalling : (s.calling callback cause).waitingResponse = true := hw
      exact not_guarded_takes hcalling (hs.free callback cause) l.calls hchains.2 htaken
    · intro h
      have hnone (c : ServiceCall τ) (hcall : c ∈ l.calls) : ¬ c.IsRequest :=
        fun hreq => h ⟨hl, c, hcall, hreq⟩
      constructor
      case taken =>
        rw [hcode]
        exact guarded_takes_of_no_request _ l.calls hnone
      case kept =>
        rw [hstep, hcomplete]
        exact fun hlt => absurd hlt (lt_irrefl _)
  · rcases hc.step_not_delivers expired l hl with ⟨calls, sent, hcode, hstep⟩
    apply iff_of_true
    · constructor
      case taken =>
        rw [hcode]
        exact hc.guarded_takes calls
      case kept =>
        intro hlt
        have hw : (s.step expired l).waitingResponse = true := by
          rw [hstep] at hlt ⊢
          exact run_call_accepted s calls hlt
        exact ⟨hw, (hc.step expired l).lastReqCb_eq hw⟩
    · exact fun hchains => hl hchains.1

/-- All requests made when the one before is over are taken and keep their callbacks, exactly in
the runs in which no waiting callback makes a request. -/
theorem run_honours_iff (expired : τ → τ → Bool) (registry : Registry) (time : τ)
    (ls : List (ServiceStep τ)) :
    Guarded (step expired) (Honours expired) (init registry time) ls ↔
      Guarded (step expired) (fun s l => ¬ s.Chains expired l) (init registry time) ls := by
  have hsettled : (init registry time).Settled := fun _ hn => absurd hn (Nat.not_lt_zero _)
  exact guarded_iff (I := fun s : AquilaServices τ => s.Consistent ∧ s.Settled)
    (fun s l h => honours_iff expired h.1 h.2 l)
    (fun s l h _ => ⟨h.1.step expired l, h.2.step h.1 expired l⟩)
    ⟨init_consistent registry time, hsettled⟩ ls

/-- The callback for the answer of node 2 asks node 3, and nothing is sent. -/
theorem not_honours :
    ¬ ∀ (expired : ℕ → ℕ → Bool) (registry : Registry) (time : ℕ) (ls : List (ServiceStep ℕ)),
      Guarded (step expired) (Honours expired) (init registry time) ls := by
  intro hall
  have hrun := hall (fun _ _ => false) .empty 0
    [.call (.request 0x0002#16 0 [] (some 5) [] 0),
      .receive (bareResponse 0x0002#16) (fun _ => 0)
        [.request 0x0003#16 0 [] (some 6) [] 0] []]
  have htakes := hrun.2.1.taken.1
  have hsent := (htakes (by rw [Free]; decide +kernel)).1
  exact absurd hsent (by decide +kernel)

end AquilaServices

end Aquila.Services
