import Aquila.Library.Counter
import Aquila.Services.Chaining

/-! # The timeout of a request

`loop` adds the timeout to the time of the request in a `double`, where the sum does not wrap
as `millis()` does. Times are readings of a 32-bit counter, held exactly.
-/

namespace Aquila.Services
open Library Mesh

/-- `AQUILASERVICES_TIMEOUT` -/
def timeout : ℕ := 1000

/-- `lastRequestTime + AQUILASERVICES_TIMEOUT < now` -/
def expired (lastRequestTime now : BitVec 32) : Bool :=
  decide (lastRequestTime.toNat + timeout < now.toNat)

namespace AquilaServices

/-- User code of the step makes the accepted request with number `n` at time `t₀`. -/
def Makes (s : AquilaServices (BitVec 32)) (l : ServiceStep (BitVec 32)) (t₀ : BitVec 32)
    (n : ℕ) : Prop :=
  ∃ calls later destAddr method name callback data,
    (s.userCode expired l).2 =
      calls ++ .request destAddr method name (some callback) data t₀ :: later ∧
    (run call (s.userCode expired l).1 calls).waitingResponse = false ∧
    (run call (s.userCode expired l).1 calls).accepted.length = n

/-- A run from a reset has come to this state, whose waiting request was made at time `t₀`. -/
def WaitsSince (s : AquilaServices (BitVec 32)) (t₀ : BitVec 32) : Prop :=
  ∃ registry time before l after,
    (run (step expired) (init registry time) before).Makes l t₀ s.lastRequest ∧
    s = run (step expired) (init registry time) (before ++ l :: after) ∧
    s.waitingResponse = true

/-- The wait of the first state has ended with `R408` in the second. -/
structure TimesOut {τ : Type} (s s' : AquilaServices τ) : Prop where
  called : ∃ callback, s.registry.lastReqCb = some callback ∧
    s'.invoked = s.invoked ++ [⟨s.lastRequest, callback, s.accepted.length, .timeout⟩]
  cleared : s'.waitingResponse = false ∧ s'.registry.lastReqCb = none

/-! ### The time of the waiting request -/

/-- Request `n` has been accepted, and while it is the last one its time is kept. -/
structure Timed (n : ℕ) (t₀ : BitVec 32) (s : AquilaServices (BitVec 32)) : Prop where
  made : n < s.accepted.length
  time : s.lastRequest = n → s.lastRequestTime = t₀

theorem Timed.call {n : ℕ} {t₀ : BitVec 32} {s : AquilaServices (BitVec 32)} (h : s.Timed n t₀)
    (c : ServiceCall (BitVec 32)) : (s.call c).Timed n t₀ := by
  rcases s.call_cases c with ⟨sent, hcall⟩ | ⟨-, sent, destAddr, callback, millis, hcall⟩
  · rw [hcall]
    exact ⟨h.made, h.time⟩
  · rw [hcall]
    constructor
    case made =>
      rw [wait, List.length_append]
      exact Nat.lt_add_right _ h.made
    case time => exact fun hlast => absurd hlast h.made.ne'

theorem timed_request (s : AquilaServices (BitVec 32)) (destAddr : Word) (method : Byte)
    (name : List Byte) (callback : ℕ) (data : List Byte) (t₀ : BitVec 32)
    (h : s.waitingResponse = false) :
    (s.call (.request destAddr method name (some callback) data t₀)).Timed s.accepted.length t₀ :=
    by
  have hw : ¬ s.waitingResponse = true := Bool.not_eq_true _ ▸ h
  rw [call, if_neg hw]
  constructor
  case made =>
    change s.accepted.length < (s.accepted ++ [Accepted.mk destAddr callback]).length
    rw [List.length_append]
    exact Nat.lt_succ_self _
  case time => exact fun _ => rfl

/-- A step does what its user code does, except to the slot and to what is sent. -/
theorem Consistent.step_userCode {s : AquilaServices (BitVec 32)} (hc : s.Consistent)
    (l : ServiceStep (BitVec 32)) :
    ∃ registry waiting sent, s.step expired l =
      { run AquilaServices.call (s.userCode expired l).1 (s.userCode expired l).2 with
        registry := registry, waitingResponse := waiting, sent := sent } := by
  by_cases hl : s.Delivers expired l
  · rcases s.step_ends expired l hl.2 with ⟨cause, hcode, hstep⟩
    rw [hstep, AquilaServices.complete, invoke_enter, hcode]
    exact ⟨_, _, _, rfl⟩
  · rcases hc.step_not_delivers expired l hl with ⟨calls, sent, hcode, hstep⟩
    rw [hstep, hcode]
    exact ⟨_, _, _, rfl⟩

theorem Consistent.userCode_start {s : AquilaServices (BitVec 32)} (hc : s.Consistent)
    (l : ServiceStep (BitVec 32)) :
    ∃ invoked, (s.userCode expired l).1 = { s with invoked := invoked } := by
  by_cases hl : s.Delivers expired l
  · rcases s.step_ends expired l hl.2 with ⟨cause, hcode, -⟩
    rcases Option.ne_none_iff_exists'.mp hl.1 with ⟨callback, hcb⟩
    rw [hcode, enter, hcb]
    exact ⟨_, rfl⟩
  · rcases hc.step_not_delivers expired l hl with ⟨calls, sent, hcode, -⟩
    rw [hcode]
    exact ⟨s.invoked, rfl⟩

theorem Timed.step {n : ℕ} {t₀ : BitVec 32} {s : AquilaServices (BitVec 32)} (h : s.Timed n t₀)
    (hc : s.Consistent) (l : ServiceStep (BitVec 32)) : (s.step expired l).Timed n t₀ := by
  rcases hc.userCode_start l with ⟨invoked, hstart⟩
  rcases hc.step_userCode l with ⟨registry, waiting, sent, hstep⟩
  have hentry : (s.userCode expired l).1.Timed n t₀ := by
    rw [hstart]
    exact ⟨h.made, h.time⟩
  have hrun := run_invariant (I := Timed n t₀) (fun _ c ht => ht.call c) hentry
    (s.userCode expired l).2
  rw [hstep]
  exact ⟨hrun.made, hrun.time⟩

theorem Makes.timed {s : AquilaServices (BitVec 32)} {l : ServiceStep (BitVec 32)}
    {t₀ : BitVec 32} {n : ℕ} (h : s.Makes l t₀ n) (hc : s.Consistent) :
    (s.step expired l).Timed n t₀ := by
  rcases h with ⟨calls, later, destAddr, method, name, callback, data, hcalls, hfree, rfl⟩
  rcases hc.step_userCode l with ⟨registry, waiting, sent, hstep⟩
  have hrequest := timed_request _ destAddr method name callback data t₀ hfree
  have hrun := run_invariant (I := Timed _ t₀) (fun _ c ht => ht.call c) hrequest later
  rw [hstep, hcalls, run_append, run_cons]
  exact ⟨hrun.made, hrun.time⟩

theorem run_consistent (registry : Registry) (time : BitVec 32)
    (ls : List (ServiceStep (BitVec 32))) :
    (run (step expired) (init registry time) ls).Consistent :=
  run_invariant (I := Consistent) (fun _ l h => h.step expired l) (init_consistent registry time) ls

theorem WaitsSince.consistent {s : AquilaServices (BitVec 32)} {t₀ : BitVec 32}
    (h : s.WaitsSince t₀) : s.Consistent := by
  rcases h with ⟨registry, time, before, l, after, -, rfl, -⟩
  exact run_consistent registry time _

theorem WaitsSince.lastRequestTime_eq {s : AquilaServices (BitVec 32)} {t₀ : BitVec 32}
    (h : s.WaitsSince t₀) : s.lastRequestTime = t₀ := by
  rcases h with ⟨registry, time, before, l, after, hmakes, hs, -⟩
  have hbefore := run_consistent registry time before
  have hafter := run_invariant
    (I := fun s' : AquilaServices (BitVec 32) => s'.Consistent ∧ s'.Timed s.lastRequest t₀)
    (fun _ l ⟨hc, ht⟩ => ⟨hc.step expired l, ht.step hc l⟩)
    ⟨hbefore.step expired l, hmakes.timed hbefore⟩ after
  rw [run_append, run_cons] at hs
  rw [← hs] at hafter
  exact hafter.2.time rfl

/-! ### When the wait ends -/

/-- While a request waits, `loop` ends the wait exactly when its test succeeds. -/
theorem Consistent.timesOut_iff_expired {s : AquilaServices (BitVec 32)} (hc : s.Consistent)
    (hw : s.waitingResponse = true) (now : BitVec 32) (calls : List (ServiceCall (BitVec 32))) :
    TimesOut s (s.loop expired now calls) ↔ expired s.lastRequestTime now = true := by
  rw [loop]
  split
  case isTrue hexpired =>
    rcases hc.pending_of_waiting hw with ⟨callback, hcb, -⟩
    rcases s.complete_some .timeout calls hcb hw with ⟨sent, hcomplete⟩
    rw [hcomplete]
    exact iff_of_true ⟨⟨callback, hcb, rfl⟩, rfl, rfl⟩ hexpired
  case isFalse hexpired =>
    apply iff_of_false _ hexpired
    intro h
    exact Bool.noConfusion (hw.symm.trans h.cleared.1)

theorem WaitsSince.timesOut_iff_late {s : AquilaServices (BitVec 32)} {t₀ : BitVec 32}
    (h : s.WaitsSince t₀) (t : BitVec 32) (calls : List (ServiceCall (BitVec 32))) :
    TimesOut s (s.loop expired t calls) ↔ t₀.toNat + timeout < t.toNat := by
  have htime := h.lastRequestTime_eq
  have hc := h.consistent
  rcases h with ⟨registry, time, before, l, after, -, -, hw⟩
  rw [hc.timesOut_iff_expired hw, htime, expired, decide_eq_true_iff]

def askedAt (t₀ : BitVec 32) : AquilaServices (BitVec 32) :=
  (init .empty 0).call (.request 0x0002#16 0 [] (some 5) [] t₀)

theorem askedAt_waitsSince (t₀ : BitVec 32) : (askedAt t₀).WaitsSince t₀ :=
  ⟨.empty, 0, [], .call (.request 0x0002#16 0 [] (some 5) [] t₀), [],
    ⟨[], [], 0x0002#16, 0, [], 5, [], rfl, rfl, rfl⟩, rfl, rfl⟩

/-- A loop that comes while a request waits ends the wait in time unless the counter has wrapped
since the request and the timeout is over. -/
theorem timesOut_iff (s : AquilaServices (BitVec 32)) (t₀ t : BitVec 32)
    (calls : List (ServiceCall (BitVec 32))) (h : s.WaitsSince t₀) :
    (TimesOut s (s.loop expired t calls) ↔ timeout < elapsed t₀ t) ↔
      t₀ ≤ t ∨ elapsed t₀ t ≤ timeout := by
  rw [h.timesOut_iff_late]
  exact wide_deadline_iff t₀ t timeout

theorem timesOut_iff_askedAt :
    (TimesOut (askedAt 7) ((askedAt 7).loop expired 1008 []) ↔ timeout < elapsed 7#32 1008) ↔
      7#32 ≤ 1008 ∨ elapsed 7#32 1008 ≤ timeout :=
  timesOut_iff (askedAt 7) 7 1008 [] (askedAt_waitsSince 7)

/-- A request made in the last second of the counter's period never times out. -/
theorem WaitsSince.never_timesOut {s : AquilaServices (BitVec 32)} {t₀ : BitVec 32}
    (h : s.WaitsSince t₀) (hlate : 2 ^ 32 ≤ t₀.toNat + timeout + 1) (t : BitVec 32)
    (calls : List (ServiceCall (BitVec 32))) : ¬ TimesOut s (s.loop expired t calls) := by
  rw [h.timesOut_iff_late]
  have ht := t.isLt
  omega

/-- A request made at the last reading before the wrap still waits after 1002 ms. -/
theorem not_timesOut :
    ¬ ∀ (s : AquilaServices (BitVec 32)) (t₀ t : BitVec 32)
      (calls : List (ServiceCall (BitVec 32))), s.WaitsSince t₀ → elapsed t₀ t < 2 ^ 31 →
      (TimesOut s (s.loop expired t calls) ↔ timeout < elapsed t₀ t) := by
  intro hall
  have hiff := hall (askedAt 0xFFFFFFFF) 0xFFFFFFFF 1001 [] (askedAt_waitsSince _)
    (by decide +kernel)
  have hlate : 2 ^ 32 ≤ (0xFFFFFFFF#32).toNat + timeout + 1 := by decide +kernel
  exact (askedAt_waitsSince 0xFFFFFFFF).never_timesOut hlate 1001 [] (hiff.mpr (by decide +kernel))

end AquilaServices

end Aquila.Services
