import Aquila.Mesh.Layer

/-! # Sleeping

`sleep` turns the loop of the mesh layer while LWM is busy. A turn ends with `sendNow`, so
the loop ends with an empty queue; but LWM knows nothing of packets that are still in the
queue, and with such packets only the loop is not entered at all.
-/

namespace Aquila.Mesh
open Library

namespace Tx

structure Counted (s : Tx) (flight : Option Owed) : Prop where
  total : s.history.accepted.length =
    s.history.confirmed.length + flight.toList.length + s.txBuffer.toList.length
  inFlight : s.InFlight flight

theorem Counted.user {s : Tx} {flight : Option Owed} (h : s.Counted flight) (a : UserAction) :
    (s.user a).Counted flight := by
  cases a with
  | sendPacket p stack =>
    rcases (Ring.length_toList_le s.txBuffer).lt_or_eq with hroom | hfull
    · rcases s.user_sendPacket_room p stack hroom with ⟨txBuffer, hlist, hstep⟩
      have htotal := h.total
      rw [hstep]
      constructor
      case total =>
        simp only [hlist, List.length_append, List.length_singleton]
        omega
      case inFlight => exact h.inFlight.frame rfl rfl rfl rfl
    · rwa [s.user_sendPacket_full p stack hfull]
  | reuse memory => exact ⟨h.total, h.inFlight.frame rfl rfl rfl rfl⟩
  | setSecurityEnabled enabled => exact ⟨h.total, h.inFlight.frame rfl rfl rfl rfl⟩

theorem Counted.sendNow {s : Tx} {flight : Option Owed} (h : s.Counted flight) (nwkBusy : Bool) :
    ∃ flight', (s.sendNow nwkBusy).Counted flight' := by
  rcases s.sendNow_cases nwkBusy with ⟨_, hsend⟩ | ⟨b, txBuffer, hlist, hbusy, hsend⟩
  · rw [hsend]
    exact ⟨flight, h⟩
  · rw [hsend]
    cases flight with
    | some o => exact absurd (hbusy.symm.trans h.inFlight.2.1) Bool.false_ne_true
    | none =>
      constructor
      case w => exact some b.owed
      case h =>
        constructor
        case total =>
          have htotal := h.total
          rw [hlist] at htotal
          simp only [nwkDataReq, Option.toList_none, Option.toList_some, List.length_nil,
            List.length_cons] at htotal ⊢
          omega
        case inFlight => exact h.inFlight.sent b txBuffer

theorem Counted.confirm {s : Tx} {flight : Option Owed} (h : s.Counted flight)
    (status control : Byte) (actions : List UserAction) :
    ∃ flight', (s.nwkDataReqConfirm status control actions).Counted flight' := by
  cases flight with
  | none =>
    rw [s.nwkDataReqConfirm_none _ _ _ h.inFlight.1]
    exact ⟨none, h⟩
  | some o =>
    have hstart : (s.confirming status control).Counted none := by
      constructor
      case total =>
        have htotal := h.total
        simp only [confirming, release, Option.toList_none, Option.toList_some, List.length_nil,
          List.length_append, List.length_singleton] at htotal ⊢
        omega
      case inFlight => exact h.inFlight.confirming status control
    have hend : (run Tx.user (s.confirming status control) actions).Counted none :=
      run_invariant (I := fun t : Tx => t.Counted none) (fun _ a h => h.user a) hstart actions
    refine ⟨none, ?_⟩
    rw [nwkDataReqConfirm_some h.inFlight]
    split
    case isTrue => exact ⟨hend.total, hend.inFlight⟩
    case isFalse => exact ⟨hstart.total, hstart.inFlight⟩

end Tx

namespace AquilaMesh

/-- Every packet accepted before a call was confirmed when the call returned: packets are
confirmed in the order in which they were accepted. -/
def SentBy (before after : AquilaMesh) : Prop :=
  before.tx.history.accepted.length ≤ after.tx.history.confirmed.length

instance (before after : AquilaMesh) : Decidable (SentBy before after) :=
  inferInstanceAs (Decidable (_ ≤ _))

def Counted (s : AquilaMesh) : Prop := ∃ flight, s.tx.Counted flight

theorem Counted.task {s : AquilaMesh} (h : s.Counted) (t : Task) : (s.task t).Counted := by
  cases t with
  | receive frames => exact h
  | indicate ind stack => exact h
  | confirm status control callback => exact h.elim fun _ h => h.confirm status control callback
  | locks count => exact h

theorem Counted.sendNow {s : AquilaMesh} (h : s.Counted) : s.sendNow.Counted :=
  h.elim fun _ h => h.sendNow s.busy

theorem Counted.step {s : AquilaMesh} (h : s.Counted) (l : MeshStep) : (s.step l).Counted := by
  cases l with
  | user action => exact h.elim fun flight h => ⟨flight, h.user action⟩
  | openEndpoint id handler => exact h
  | task t => exact h.task t
  | rxAttendPend => exact h
  | sendNow => exact h.sendNow

theorem Counted.loop {s : AquilaMesh} (h : s.Counted) (turn : Turn) : (s.loop turn).Counted := by
  rcases s.exists_run_loop turn with ⟨ls, hls⟩
  rw [hls]
  exact (run_invariant (I := Counted) (fun _ l h => h.step l) h ls).sendNow

theorem accepted_step (s : AquilaMesh) (l : MeshStep) :
    s.tx.history.accepted <+: (s.step l).tx.history.accepted := by
  cases l with
  | user action => exact s.tx.accepted_step (.user action)
  | openEndpoint id handler => exact List.prefix_rfl
  | task t =>
    cases t with
    | receive frames => exact List.prefix_rfl
    | indicate ind stack => exact List.prefix_rfl
    | confirm status control callback => exact s.tx.accepted_step (.confirm status control callback)
    | locks count => exact List.prefix_rfl
  | rxAttendPend => exact List.prefix_rfl
  | sendNow => exact s.tx.accepted_step (.sendNow s.busy)

theorem accepted_loop (s : AquilaMesh) (turn : Turn) :
    s.tx.history.accepted <+: (s.loop turn).tx.history.accepted := by
  rcases s.exists_run_loop turn with ⟨ls, hls⟩
  rw [hls]
  have hrun := run_prefix (f := fun t : AquilaMesh => t.tx.history.accepted) accepted_step s ls
  exact hrun.trans (accepted_step _ .sendNow)

theorem not_busy_iff (s : AquilaMesh) :
    s.busy = false ↔ s.tx.nwkDataReqQueue = 0 ∧ s.otherLocks = 0 := by
  rw [busy, decide_eq_false_iff_not, lock]
  omega

theorem sendNow_idle {s : AquilaMesh} (h : s.Counted) (hidle : s.sendNow.busy = false) :
    s.sendNow.tx.txBuffer.toList = [] := by
  rcases h with ⟨flight, h⟩
  rcases s.tx.sendNow_cases s.busy with ⟨hnothing, hsend⟩ | ⟨b, txBuffer, _, _, hsend⟩
  · have hsame : s.sendNow = s.withTx s.tx := by rw [sendNow, hsend]
    rw [hsame] at hidle ⊢
    rcases hnothing with hempty | htx | hbusy
    · exact hempty
    · have hqueue := ((s.withTx s.tx).not_busy_iff.mp hidle).1
      cases flight with
      | none => exact absurd (htx.symm.trans h.inFlight.2) Bool.noConfusion
      | some o => exact absurd (hqueue.symm.trans h.inFlight.1) Nat.zero_ne_one
    · exact absurd (hbusy.symm.trans hidle) Bool.noConfusion
  · have hqueue := (s.sendNow.not_busy_iff.mp hidle).1
    rw [sendNow, hsend] at hqueue
    exact absurd hqueue (Nat.succ_ne_zero _)

theorem loop_idle {s : AquilaMesh} (h : s.Counted) (turn : Turn)
    (hidle : (s.loop turn).busy = false) : (s.loop turn).tx.txBuffer.toList = [] := by
  rcases s.exists_run_loop turn with ⟨ls, hls⟩
  rw [hls] at hidle ⊢
  exact sendNow_idle (run_invariant (I := Counted) (fun _ l h => h.step l) h ls) hidle

/-! ### Calls of sleep -/

theorem sleep_idle (s : AquilaMesh) (turns : List Turn) (h : s.busy = false) :
    sleep turns s = some s := by
  cases turns with
  | nil => rw [sleep, h, if_neg Bool.false_ne_true]
  | cons turn turns => rw [sleep, h, if_neg Bool.false_ne_true]

theorem sleep_nil_busy (s : AquilaMesh) (h : s.busy = true) : sleep [] s = none := by
  rw [sleep, if_pos h]

theorem sleep_cons_busy (s : AquilaMesh) (turn : Turn) (turns : List Turn) (h : s.busy = true) :
    sleep (turn :: turns) s = sleep turns (s.loop turn) := by
  rw [sleep, if_pos h]

theorem Counted.sleep {s s' : AquilaMesh} (h : s.Counted) (turns : List Turn)
    (hsleep : sleep turns s = some s') :
    s'.Counted ∧ s'.busy = false ∧ s.tx.history.accepted <+: s'.tx.history.accepted := by
  induction turns generalizing s with
  | nil =>
    cases hbusy : s.busy with
    | true =>
      rw [s.sleep_nil_busy hbusy] at hsleep
      exact absurd hsleep.symm (Option.some_ne_none s')
    | false =>
      rw [s.sleep_idle [] hbusy] at hsleep
      cases hsleep
      exact ⟨h, hbusy, List.prefix_rfl⟩
  | cons turn turns ih =>
    cases hbusy : s.busy with
    | true =>
      rw [s.sleep_cons_busy turn turns hbusy] at hsleep
      rcases ih (h.loop turn) hsleep with ⟨hcounted, hidle, hprefix⟩
      exact ⟨hcounted, hidle, (s.accepted_loop turn).trans hprefix⟩
    | false =>
      rw [s.sleep_idle _ hbusy] at hsleep
      cases hsleep
      exact ⟨h, hbusy, List.prefix_rfl⟩

/-- A loop that is entered ends with an empty queue, whatever was queued on the way. -/
theorem Counted.sleep_drained {s s' : AquilaMesh} (h : s.Counted) (turns : List Turn)
    (hbusy : s.busy = true) (hsleep : AquilaMesh.sleep turns s = some s') :
    s'.tx.txBuffer.toList = [] := by
  induction turns generalizing s with
  | nil =>
    rw [s.sleep_nil_busy hbusy] at hsleep
    exact absurd hsleep.symm (Option.some_ne_none s')
  | cons turn turns ih =>
    rw [s.sleep_cons_busy turn turns hbusy] at hsleep
    cases hturn : (s.loop turn).busy with
    | true => exact ih (h.loop turn) hturn hsleep
    | false =>
      rw [sleep_idle _ turns hturn] at hsleep
      cases hsleep
      exact loop_idle h turn hturn

/-- While LWM is not busy, the packets that are not confirmed are those in the queue. -/
theorem Counted.accepted_length {s : AquilaMesh} (h : s.Counted) (hidle : s.busy = false) :
    s.tx.history.accepted.length =
      s.tx.history.confirmed.length + s.tx.txBuffer.toList.length := by
  rcases h with ⟨flight, h⟩
  have htotal := h.total
  cases flight with
  | none => exact htotal
  | some o =>
    have hqueue := (s.not_busy_iff.mp hidle).1
    exact absurd (hqueue.symm.trans h.inFlight.1) Nat.zero_ne_one

theorem Counted.sentBy_iff {s s' : AquilaMesh} (h : s.Counted) (turns : List Turn)
    (hsleep : AquilaMesh.sleep turns s = some s') :
    SentBy s s' ↔ s.busy = true ∨ s.tx.txBuffer.toList = [] := by
  rcases h.sleep turns hsleep with ⟨hcounted, hidle, hprefix⟩
  have hlength := hcounted.accepted_length hidle
  have hle := hprefix.length_le
  rw [SentBy]
  cases hbusy : s.busy with
  | true =>
    rw [h.sleep_drained turns hbusy hsleep, List.length_nil] at hlength
    exact iff_of_true (by omega) (Or.inl rfl)
  | false =>
    rw [s.sleep_idle turns hbusy] at hsleep
    cases hsleep
    rw [or_iff_right Bool.false_ne_true, ← List.length_eq_zero_iff]
    omega

/-- Whenever `sleep` returns, the packets accepted before the call have been sent exactly if LWM
was busy at the call or the queue was empty. -/
theorem sleep_sent_iff (rxStorage : Fin meshRxBufferSize → RxBufPacket) (rxPacket : RxBufPacket)
    (memory : CallerMemory) (txStorage : Fin meshTxBufferSize → TxBufPacket)
    (txPacket : TxBufPacket) (ls : List MeshStep) (turns : List Turn) (s' : AquilaMesh)
    (hsleep : sleep turns (run step (init rxStorage rxPacket memory txStorage txPacket) ls) =
      some s') :
    let s := run step (init rxStorage rxPacket memory txStorage txPacket) ls
    SentBy s s' ↔ s.busy = true ∨ s.tx.txBuffer.toList = [] := by
  have hinit : (init rxStorage rxPacket memory txStorage txPacket).Counted := by
    refine ⟨none, ?_, rfl, rfl⟩
    simp [init, Tx.init]
  exact Counted.sentBy_iff (run_invariant (fun _ l h => h.step l) hinit ls) turns hsleep

def exampleLayer : AquilaMesh :=
  init (fun _ => ⟨Rx.examplePacket, 0⟩) ⟨Rx.examplePacket, 0⟩ Tx.exampleMemory
    (fun _ => ⟨Tx.exampleMemory.packets 0, 0⟩) ⟨Tx.exampleMemory.packets 0, 0⟩

/-- The packet is in flight at the call and confirmed in the only turn of the loop. -/
theorem sleep_sent_inFlight :
    let s := run step exampleLayer
      [.user (.sendPacket 0 ⟨Tx.exampleMemory.packets 0, 0⟩), .sendNow]
    SentBy s (s.loop ⟨[.confirm 0#8 0#8 []], []⟩) ↔ s.busy = true ∨ s.tx.txBuffer.toList = [] :=
  sleep_sent_iff _ _ _ _ _ _ [⟨[.confirm 0#8 0#8 []], []⟩] _ rfl

/-- A packet that has just been queued is still queued when the radio sleeps. -/
theorem not_sleep_sent :
    ¬ ∀ (rxStorage : Fin meshRxBufferSize → RxBufPacket) (rxPacket : RxBufPacket)
      (memory : CallerMemory) (txStorage : Fin meshTxBufferSize → TxBufPacket)
      (txPacket : TxBufPacket) (ls : List MeshStep) (turns : List Turn) (s' : AquilaMesh),
      sleep turns (run step (init rxStorage rxPacket memory txStorage txPacket) ls) = some s' →
        SentBy (run step (init rxStorage rxPacket memory txStorage txPacket) ls) s' := by
  intro hall
  have hsent := hall (fun _ => ⟨Rx.examplePacket, 0⟩) ⟨Rx.examplePacket, 0⟩ Tx.exampleMemory
    (fun _ => ⟨Tx.exampleMemory.packets 0, 0⟩) ⟨Tx.exampleMemory.packets 0, 0⟩
    [.user (.sendPacket 0 ⟨Tx.exampleMemory.packets 0, 0⟩)] [] _ rfl
  exact absurd hsent (by decide)

end AquilaMesh

end Aquila.Mesh
