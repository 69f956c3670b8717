import Aquila.Mesh.Layer

/-! # Security of the two queues

Reception checks a packet when it arrives and transmission marks a packet when it leaves.
The flag may change while packets wait, so a handler can be given an unsecured packet
after security was enabled, if the packet arrived before.
-/

namespace Aquila.Mesh
open Library

def Secured (options : Byte) : Prop := options &&& nwkIndOptSecured ≠ 0

instance (options : Byte) : Decidable (Secured options) :=
  inferInstanceAs (Decidable (_ ≠ _))

namespace AquilaMesh

/-- A handler called now is given a secured packet, or one accepted with security disabled. -/
def HandlesSecured (s : AquilaMesh) : Prop :=
  ∀ d handler ind, (s.rx.rxAttendPend s.busy).1 = some d → d.call = some (handler, ind) →
    Secured ind.options ∨ s.arrivals[s.rx.dispatched.length]? = some (ind.options, false)

/-- A request handed to LWM now asks for security exactly if it is enabled. -/
def RequestsSecured (s : AquilaMesh) : Prop :=
  s.sendNow.tx.history.handed ≠ s.tx.history.handed →
    (s.sendNow.tx.bufPacket.packet.options &&& nwkOptEnableSecurity ≠ 0 ↔ s.tx.secEnabled = true)

/-- Packets leave in the order of their arrivals, and each was checked when it arrived. -/
structure Checked (s : AquilaMesh) : Prop where
  order : s.arrivals.map Prod.fst =
    s.rx.dispatched.map (fun d => d.packet.options) ++
      s.rx.rxBuffer.toList.map (fun b => b.packet.options)
  secured : ∀ a ∈ s.arrivals, Secured a.1 ∨ a.2 = false

/-! ### Reception -/

theorem Checked.withTx {s : AquilaMesh} (h : s.Checked) (tx : Tx) : (s.withTx tx).Checked :=
  ⟨h.order, h.secured⟩

theorem Checked.indicate {s : AquilaMesh} (h : s.Checked) (ind : RxPacket) (stack : RxBufPacket) :
    (s.indicate ind stack).Checked := by
  by_cases hrefuses : s.rx.Refuses ind
  · simp only [AquilaMesh.indicate, s.rx.rxBootstrap_refused ind stack hrefuses,
      s.rx.indicate_refused ind stack hrefuses, Traced.value_pure, Bool.false_eq_true, if_false]
    exact ⟨h.order, h.secured⟩
  · rcases s.rx.rxBootstrap_accepted ind stack hrefuses with ⟨_, haccepted, _⟩
    rcases s.rx.indicate_accepted ind stack hrefuses with ⟨rxBuffer, hstep, hlist⟩
    simp only [AquilaMesh.indicate, haccepted, hstep, if_true]
    constructor
    case order =>
      simp only [List.map_append, h.order, AquilaMesh.withRx, hlist, List.map_cons, List.map_nil,
        List.append_assoc]
      rfl
    case secured =>
      intro a ha
      rcases List.mem_append.mp ha with ha | ha
      · exact h.secured a ha
      · cases List.mem_singleton.mp ha
        have hsecure := (not_or.mp hrefuses).2
        rw [Rx.insecure, s.secEnabled_eq, Bool.and_eq_true, not_and_or, Bool.not_eq_true,
          beq_iff_eq] at hsecure
        exact hsecure.symm

theorem Checked.rxAttendPend {s : AquilaMesh} (h : s.Checked) : s.rxAttendPend.Checked := by
  rcases s.rx.rxAttendPend_cases s.busy with hattend | ⟨b, rxBuffer, hlist, hattend⟩
  · simp only [AquilaMesh.rxAttendPend, Rx.step, hattend, Option.toList_none, List.map_nil,
      List.append_nil]
    exact ⟨h.order, h.secured⟩
  · have horder := h.order
    simp only [AquilaMesh.rxAttendPend, Rx.step, hattend, AquilaMesh.withRx, Option.toList_some]
    constructor
    case order =>
      simp only [horder, hlist, List.map_append, List.map_cons, List.map_nil, List.append_assoc,
        List.singleton_append]
      rfl
    case secured => exact h.secured

theorem Checked.task {s : AquilaMesh} (h : s.Checked) (t : Task) : (s.task t).Checked := by
  cases t with
  | receive frames => exact ⟨h.order, h.secured⟩
  | indicate ind stack => exact h.indicate ind stack
  | confirm status control callback => exact h.withTx _
  | locks count => exact ⟨h.order, h.secured⟩

theorem Checked.step {s : AquilaMesh} (h : s.Checked) (l : MeshStep) : (s.step l).Checked := by
  cases l with
  | user action => exact h.withTx _
  | openEndpoint id handler => exact ⟨h.order, h.secured⟩
  | task t => exact h.task t
  | rxAttendPend => exact h.rxAttendPend
  | sendNow => exact h.withTx _

/-- The packet that is next for a handler is the oldest one that has not been dispatched. -/
theorem Checked.handlesSecured {s : AquilaMesh} (h : s.Checked) : s.HandlesSecured := by
  intro d handler ind hd hcall
  rcases s.rx.rxAttendPend_cases s.busy with hattend | ⟨b, rxBuffer, hlist, hattend⟩
  · rw [hattend] at hd
    exact absurd hd.symm (Option.some_ne_none d)
  · rw [hattend] at hd
    cases hd
    have hind : ind = b.indication := by
      rcases Option.map_eq_some_iff.mp hcall with ⟨_, _, hpair⟩
      exact (congrArg Prod.snd hpair).symm
    have hoptions : ind.options = b.packet.options := congrArg Indication.options hind
    have hnext : (s.arrivals.map Prod.fst)[s.rx.dispatched.length]? = some b.packet.options := by
      rw [h.order, List.getElem?_append_right (List.length_map _).le, List.length_map, Nat.sub_self,
        hlist]
      rfl
    rw [List.getElem?_map] at hnext
    rcases Option.map_eq_some_iff.mp hnext with ⟨a, ha, hfst⟩
    rcases h.secured a (List.mem_of_getElem? ha) with hsecured | hdisabled
    · exact Or.inl (hoptions ▸ hfst ▸ hsecured)
    · right
      rw [ha, hoptions, ← hfst, ← hdisabled]

/-! ### Transmission -/

theorem or_enableSecurity (options : Byte) :
    (options ||| nwkOptEnableSecurity) &&& nwkOptEnableSecurity ≠ 0 := by
  revert options
  decide +kernel

theorem andNot_enableSecurity (options : Byte) :
    (options &&& ~~~nwkOptEnableSecurity) &&& nwkOptEnableSecurity = 0 := by
  revert options
  decide +kernel

theorem prepare_enableSecurity_iff (secEnabled : Bool) (b : TxBufPacket) :
    (Tx.prepare secEnabled b).packet.options &&& nwkOptEnableSecurity ≠ 0 ↔ secEnabled = true := by
  cases secEnabled with
  | false => exact iff_of_false (fun h => h (andNot_enableSecurity _)) Bool.false_ne_true
  | true => exact iff_of_true (or_enableSecurity _) rfl

theorem requestsSecured (s : AquilaMesh) : s.RequestsSecured := by
  intro hhanded
  rcases s.tx.sendNow_cases s.busy with ⟨_, hsend⟩ | ⟨b, txBuffer, _, _, hsend⟩
  · rw [sendNow, hsend] at hhanded
    exact absurd rfl hhanded
  · rw [sendNow, hsend]
    exact prepare_enableSecurity_iff s.tx.secEnabled b

/-! ### Runs -/

/-- In every run, handlers are given secured packets or packets that arrived while security was
disabled, and requests ask for security exactly while it is enabled. -/
theorem run_secured (rxStorage : Fin meshRxBufferSize → RxBufPacket) (rxPacket : RxBufPacket)
    (memory : CallerMemory) (txStorage : Fin meshTxBufferSize → TxBufPacket)
    (txPacket : TxBufPacket) (ls : List MeshStep) :
    (run step (init rxStorage rxPacket memory txStorage txPacket) ls).HandlesSecured ∧
      (run step (init rxStorage rxPacket memory txStorage txPacket) ls).RequestsSecured := by
  have hchecked : (run step (init rxStorage rxPacket memory txStorage txPacket) ls).Checked :=
    run_invariant (fun _ l h => h.step l) ⟨rfl, fun a ha => absurd ha List.not_mem_nil⟩ ls
  exact ⟨hchecked.handlesSecured, requestsSecured _⟩

/-- A packet accepted before security is enabled is given to its handler afterwards. -/
theorem not_always_secured :
    ¬ ∀ (rxStorage : Fin meshRxBufferSize → RxBufPacket) (rxPacket : RxBufPacket)
      (memory : CallerMemory) (txStorage : Fin meshTxBufferSize → TxBufPacket)
      (txPacket : TxBufPacket) (ls : List MeshStep),
      let s := run step (init rxStorage rxPacket memory txStorage txPacket) ls
      s.tx.secEnabled = true → ∀ d handler ind, (s.rx.rxAttendPend s.busy).1 = some d →
        d.call = some (handler, ind) → Secured ind.options := by
  intro hall
  have hrun := hall (fun _ => ⟨Rx.examplePacket, 0⟩) ⟨Rx.examplePacket, 0⟩ Tx.exampleMemory
    (fun _ => ⟨Tx.exampleMemory.packets 0, 0⟩) ⟨Tx.exampleMemory.packets 0, 0⟩
    [.openEndpoint Rx.examplePacket.dstEndpoint 7,
      .task (.indicate Rx.examplePacket ⟨Rx.examplePacket, 0⟩), .user (.setSecurityEnabled true)]
    rfl
  exact absurd (hrun _ 7 _ rfl rfl) (by decide)

end AquilaMesh

end Aquila.Mesh
