import Aquila.Mesh.Tx

/-! # Runs of the transmission queue

An accepted packet is queued, then in flight, then confirmed. The invariant splits the
accepted packets into these three parts; every theorem about runs reads it off.
-/

namespace Aquila.Mesh
open Library

namespace Tx

def queued (s : Tx) : List Owed := s.txBuffer.toList.map TxBufPacket.owed

/-- What a confirmation owes: the packet's own callback, given the packet's message. -/
def due (o : Owed) : Option (ConfirmFn × Message) := o.2.map (fun f => (f, o.1))

def Carried (s : Tx) : Prop := ∀ o ∈ s.history.accepted, o.1.payload.length ≤ maxPayload

instance (s : Tx) : Decidable s.Carried :=
  inferInstanceAs (Decidable (∀ o ∈ s.history.accepted, o.1.payload.length ≤ maxPayload))

/-- LWM holds exactly the given packet, in the static packet. -/
def InFlight (s : Tx) : Option Owed → Prop
  | none => s.nwkDataReqQueue = 0 ∧ s.txBusy = false
  | some o =>
    s.nwkDataReqQueue = 1 ∧ s.txBusy = true ∧ s.txUserConfirm = o.2 ∧
      s.bufPacket.packet.confirm = some .txConfirm ∧ s.bufPacket.packet.data = .inFlight ∧
      s.message s.bufPacket.packet = o.1

/-- The accepted packets are the confirmed ones, the one in flight and the queue. -/
structure Tracked (s : Tx) (done : List Owed) (flight : Option Owed) : Prop where
  accepted : s.history.accepted = done ++ flight.toList ++ s.queued
  handed : s.history.handed = (done ++ flight.toList).map Prod.fst
  confirmed : s.history.confirmed = done.map due
  inFlight : s.InFlight flight

theorem init_tracked (memory : CallerMemory) (storage : Fin meshTxBufferSize → TxBufPacket)
    (bufPacket : TxBufPacket) : (init memory storage bufPacket).Tracked [] none where
  accepted := by simp [queued, init]
  handed := rfl
  confirmed := rfl
  inFlight := ⟨rfl, rfl⟩

/-! ### Outside code -/

theorem owed_init (s : Tx) (packet : TxPacket) (stack : TxBufPacket)
    (h : packet.size.toNat ≤ maxPayload) :
    (stack.init packet (s.deref packet.data)).value.owed = (s.message packet, packet.confirm) := by
  simp only [TxBufPacket.init, Traced.value_bind, Traced.value_pure, TxBufPacket.owed,
    Payload.read_copy _ _ _ h]
  rfl

theorem length_payload_message (s : Tx) (p : TxPacket) :
    (s.message p).payload.length = p.size.toNat := by
  simp [message, TxPacket.message]

theorem sendPacket_full (s : Tx) (packet : TxPacket) (stack : TxBufPacket)
    (h : s.txBuffer.toList.length = meshTxBufferSize) :
    s.sendPacket packet stack = (false, s) := by
  rw [sendPacket, if_pos ((Ring.isFull_iff _).mpr h)]

theorem sendPacket_accepted (s : Tx) (packet : TxPacket) (stack : TxBufPacket)
    (h : s.txBuffer.toList.length < meshTxBufferSize) :
    ∃ txBuffer, s.sendPacket packet stack = (true, { s with txBuffer := txBuffer }) ∧
      txBuffer.toList =
        s.txBuffer.toList ++ [(stack.init packet (s.deref packet.data)).value] := by
  have hfull : ¬ s.txBuffer.isFull = true := by
    rw [Ring.isFull_iff]
    omega
  have hinsert := s.txBuffer.insert_toList (stack.init packet (s.deref packet.data)).value h
  refine ⟨_, ?_, hinsert.2⟩
  rw [sendPacket, if_neg hfull]
  simp only [hinsert.1, if_true]

theorem user_sendPacket_full (s : Tx) (p : ℕ) (stack : TxBufPacket)
    (h : s.txBuffer.toList.length = meshTxBufferSize) : s.user (.sendPacket p stack) = s := by
  simp only [user, s.sendPacket_full _ stack h]
  rfl

theorem user_sendPacket_room (s : Tx) (p : ℕ) (stack : TxBufPacket)
    (h : s.txBuffer.toList.length < meshTxBufferSize) :
    ∃ txBuffer, txBuffer.toList = s.txBuffer.toList ++
        [(stack.init (s.memory.packets p) (s.deref (s.memory.packets p).data)).value] ∧
      s.user (.sendPacket p stack) =
        { s with
          txBuffer := txBuffer
          history.accepted := s.history.accepted ++
            [(s.message (s.memory.packets p), (s.memory.packets p).confirm)] } := by
  rcases s.sendPacket_accepted (s.memory.packets p) stack h with ⟨txBuffer, hsend, hlist⟩
  refine ⟨txBuffer, hlist, ?_⟩
  simp only [user, hsend, if_true]

theorem accepted_user (s : Tx) (a : UserAction) :
    s.history.accepted <+: (s.user a).history.accepted := by
  cases a with
  | sendPacket p stack =>
    rcases (Ring.length_toList_le s.txBuffer).lt_or_eq with hroom | hfull
    · rcases s.user_sendPacket_room p stack hroom with ⟨txBuffer, _, hstep⟩
      rw [hstep]
      exact List.prefix_append _ _
    · rw [s.user_sendPacket_full p stack hfull]
  | reuse memory => exact List.prefix_rfl
  | setSecurityEnabled enabled => exact List.prefix_rfl

theorem Carried.of_prefix {s s' : Tx} (h : s'.Carried)
    (hs : s.history.accepted <+: s'.history.accepted) : s.Carried :=
  fun o ho => h o (hs.subset ho)

/-- The static packet is out of the reach of outside code. -/
theorem InFlight.frame {s s' : Tx} {flight : Option Owed} (h : s.InFlight flight)
    (hqueue : s'.nwkDataReqQueue = s.nwkDataReqQueue) (hbusy : s'.txBusy = s.txBusy)
    (hconfirm : s'.txUserConfirm = s.txUserConfirm) (hpacket : s'.bufPacket = s.bufPacket) :
    s'.InFlight flight := by
  cases flight with
  | none => exact ⟨hqueue.trans h.1, hbusy.trans h.2⟩
  | some o =>
    rcases h with ⟨h₁, h₂, h₃, h₄, h₅, h₆⟩
    refine ⟨hqueue.trans h₁, hbusy.trans h₂, hconfirm.trans h₃, hpacket ▸ h₄, hpacket ▸ h₅, ?_⟩
    rw [← h₆]
    simp only [message, hpacket, h₅]
    congr 2
    ext i
    simp only [deref, hpacket]

theorem Tracked.user {s : Tx} {done : List Owed} {flight : Option Owed}
    (h : s.Tracked done flight) (a : UserAction) (hc : (s.user a).Carried) :
    (s.user a).Tracked done flight := by
  cases a with
  | sendPacket p stack =>
    rcases (Ring.length_toList_le s.txBuffer).lt_or_eq with hroom | hfull
    · rcases s.user_sendPacket_room p stack hroom with ⟨txBuffer, hlist, hstep⟩
      rw [hstep] at hc ⊢
      have hsize : (s.memory.packets p).size.toNat ≤ maxPayload := by
        rw [← s.length_payload_message]
        exact hc _ (List.mem_append_right _ (List.mem_singleton.mpr rfl))
      constructor
      case accepted =>
        simp only [queued, hlist, List.map_append, List.map_cons, List.map_nil,
          s.owed_init _ stack hsize, h.accepted, List.append_assoc]
      case handed => exact h.handed
      case confirmed => exact h.confirmed
      case inFlight => exact h.inFlight.frame rfl rfl rfl rfl
    · rwa [s.user_sendPacket_full p stack hfull]
  | reuse memory =>
    exact ⟨h.accepted, h.handed, h.confirmed, h.inFlight.frame rfl rfl rfl rfl⟩
  | setSecurityEnabled enabled =>
    exact ⟨h.accepted, h.handed, h.confirmed, h.inFlight.frame rfl rfl rfl rfl⟩

theorem Tracked.run_user {s : Tx} {done : List Owed} {flight : Option Owed}
    (h : s.Tracked done flight) (actions : List UserAction) (hc : (run Tx.user s actions).Carried) :
    (run Tx.user s actions).Tracked done flight :=
  run_invariant_of_end (I := fun t => t.Tracked done flight)
    (fun t a hc => hc.of_prefix (accepted_user t a)) (fun _ a h hc => h.user a hc) h actions hc

/-! ### The mesh layer and LWM -/

theorem sendNow_idle (s : Tx) (nwkBusy : Bool)
    (h : s.txBuffer.toList = [] ∨ s.txBusy = true ∨ nwkBusy = true) : s.sendNow nwkBusy = s := by
  rw [sendNow, if_pos]
  rw [Bool.or_eq_true, Bool.or_eq_true, Ring.isEmpty_iff, or_assoc]
  exact h

theorem sendNow_oldest (s : Tx) (b : TxBufPacket) (bs : List TxBufPacket)
    (hlist : s.txBuffer.toList = b :: bs) (hbusy : s.txBusy = false) :
    ∃ txBuffer, txBuffer.toList = bs ∧ s.sendNow false =
      nwkDataReq
        { s with
          txBuffer := txBuffer
          bufPacket := prepare s.secEnabled b
          txUserConfirm := b.packet.confirm
          txBusy := true } := by
  rcases s.txBuffer.remove_cons b bs hlist with ⟨txBuffer, hremove, hrest⟩
  have hempty : s.txBuffer.isEmpty = false := by
    rw [← Bool.not_eq_true, Ring.isEmpty_iff, hlist]
    exact List.cons_ne_nil b bs
  refine ⟨txBuffer, hrest, ?_⟩
  simp only [sendNow, hempty, hbusy, hremove, Bool.or_self, Bool.false_eq_true, if_false]

/-- `sendNow` does nothing, or hands the oldest queued packet to LWM. -/
theorem sendNow_cases (s : Tx) (nwkBusy : Bool) :
    ((s.txBuffer.toList = [] ∨ s.txBusy = true ∨ nwkBusy = true) ∧ s.sendNow nwkBusy = s) ∨
      ∃ b txBuffer, s.txBuffer.toList = b :: txBuffer.toList ∧ s.txBusy = false ∧
        s.sendNow nwkBusy = nwkDataReq
          { s with
            txBuffer := txBuffer
            bufPacket := prepare s.secEnabled b
            txUserConfirm := b.packet.confirm
            txBusy := true } := by
  by_cases hidle : s.txBuffer.toList = [] ∨ s.txBusy = true ∨ nwkBusy = true
  · exact Or.inl ⟨hidle, sendNow_idle s nwkBusy hidle⟩
  · right
    rw [not_or, not_or, Bool.not_eq_true, Bool.not_eq_true] at hidle
    rcases hidle with ⟨hne, hbusy, rfl⟩
    rcases List.exists_cons_of_ne_nil hne with ⟨b, bs, hlist⟩
    rcases s.sendNow_oldest b bs hlist hbusy with ⟨txBuffer, rfl, hsend⟩
    exact ⟨b, txBuffer, hlist, hbusy, hsend⟩

theorem accepted_sendNow (s : Tx) (nwkBusy : Bool) :
    (s.sendNow nwkBusy).history.accepted = s.history.accepted := by
  rcases s.sendNow_cases nwkBusy with ⟨_, hsend⟩ | ⟨_, _, _, _, hsend⟩
  · rw [hsend]
  · rw [hsend]
    rfl

theorem InFlight.sent {s : Tx} (h : s.InFlight none) (b : TxBufPacket)
    (txBuffer : Ring TxBufPacket meshTxBufferSize) :
    (nwkDataReq
      { s with
        txBuffer := txBuffer
        bufPacket := prepare s.secEnabled b
        txUserConfirm := b.packet.confirm
        txBusy := true }).InFlight (some b.owed) := by
  constructor
  · rw [nwkDataReq, h.1]
  · exact ⟨rfl, rfl, rfl, rfl, rfl⟩

theorem Tracked.sendNow {s : Tx} {done : List Owed} {flight : Option Owed}
    (h : s.Tracked done flight) (nwkBusy : Bool) :
    ∃ flight', (s.sendNow nwkBusy).Tracked done flight' := by
  rcases s.sendNow_cases nwkBusy with ⟨_, hsend⟩ | ⟨b, txBuffer, hlist, hbusy, hsend⟩
  · rw [hsend]
    exact ⟨flight, h⟩
  · rw [hsend]
    cases flight with
    | some o => exact absurd (hbusy.symm.trans h.inFlight.2.1) Bool.false_ne_true
    | none =>
      refine ⟨some b.owed, ?_⟩
      constructor
      case accepted =>
        have haccepted := h.accepted
        simp only [queued, hlist, List.map_cons, Option.toList_none, List.append_nil]
          at haccepted
        simp only [nwkDataReq, queued, haccepted, Option.toList_some, List.append_assoc,
          List.singleton_append]
      case handed =>
        have hhanded := h.handed
        rw [Option.toList_none, List.append_nil] at hhanded
        simp only [nwkDataReq, hhanded, Option.toList_some, List.map_append, List.map_cons,
          List.map_nil]
        rfl
      case confirmed => exact h.confirmed
      case inFlight => exact h.inFlight.sent b txBuffer

theorem nwkDataReqConfirm_none (s : Tx) (status control : Byte) (actions : List UserAction)
    (h : s.nwkDataReqQueue = 0) : s.nwkDataReqConfirm status control actions = s := by
  rw [nwkDataReqConfirm, if_pos h]

theorem nwkDataReqConfirm_txConfirm (s : Tx) {status control : Byte} {actions : List UserAction}
    (hqueue : ¬ s.nwkDataReqQueue = 0) (hfn : s.bufPacket.packet.confirm = some .txConfirm) :
    s.nwkDataReqConfirm status control actions =
      (s.release status control).txConfirm actions := by
  rw [nwkDataReqConfirm, if_neg hqueue]
  dsimp only
  split
  case h_1 => rfl
  case h_2 hother => exact absurd hfn hother

theorem nwkDataReqConfirm_callback (s : Tx) {status control : Byte} {actions : List UserAction}
    (hqueue : ¬ s.nwkDataReqQueue = 0) (hfn : ¬ s.bufPacket.packet.confirm = some .txConfirm) :
    s.nwkDataReqConfirm status control actions =
      (s.release status control).callback s.bufPacket.packet.confirm actions := by
  rw [nwkDataReqConfirm, if_neg hqueue]
  dsimp only
  split
  case h_1 htxConfirm => exact absurd htxConfirm hfn
  case h_2 => rfl

def confirming (s : Tx) (status control : Byte) : Tx :=
  { s.release status control with
    txBusy := false
    history.confirmed := s.history.confirmed ++
      [s.txUserConfirm.map (fun f => (f, s.message s.bufPacket.packet))] }

theorem InFlight.confirming {s : Tx} {o : Owed} (h : s.InFlight (some o)) (status control : Byte) :
    (s.confirming status control).InFlight none := by
  constructor
  · rw [Tx.confirming, release, h.1]
  · rfl

theorem confirming_tracked {s : Tx} {done : List Owed} {o : Owed}
    (h : s.Tracked done (some o)) (status control : Byte) :
    (s.confirming status control).Tracked (done ++ [o]) none := by
  rcases h.inFlight with ⟨hqueue, _, hconfirm, _, _, hmessage⟩
  constructor
  case accepted =>
    have haccepted := h.accepted
    rw [Option.toList_some] at haccepted
    rw [Option.toList_none, List.append_nil]
    exact haccepted
  case handed =>
    have hhanded := h.handed
    rw [Option.toList_some] at hhanded
    rw [Option.toList_none, List.append_nil]
    exact hhanded
  case confirmed =>
    simp only [confirming, release, h.confirmed, hconfirm, hmessage, List.map_append, List.map_cons,
      List.map_nil, due]
  case inFlight => exact h.inFlight.confirming status control

/-- What LWM's confirmation of the packet in flight does, up to the callback it runs. -/
theorem nwkDataReqConfirm_some {s : Tx} {o : Owed} (h : s.InFlight (some o))
    (status control : Byte) (actions : List UserAction) :
    s.nwkDataReqConfirm status control actions =
      { (if s.txUserConfirm.isSome then run Tx.user (s.confirming status control) actions
          else s.confirming status control) with txUserConfirm := none } := by
  rcases h with ⟨hqueue, _, _, hfn, _, _⟩
  rw [s.nwkDataReqConfirm_txConfirm (by omega) hfn]
  rfl

/-- Only a packet in flight can be confirmed, and it then runs its own callback. -/
theorem Tracked.confirm {s : Tx} {done : List Owed} {flight : Option Owed}
    (h : s.Tracked done flight) (status control : Byte) (actions : List UserAction)
    (hc : (s.nwkDataReqConfirm status control actions).Carried) :
    ∃ done' flight', (s.nwkDataReqConfirm status control actions).Tracked done' flight' := by
  cases flight with
  | none =>
    rw [s.nwkDataReqConfirm_none _ _ _ h.inFlight.1]
    exact ⟨done, none, h⟩
  | some o =>
    refine ⟨done ++ [o], none, ?_⟩
    have hstart := confirming_tracked h status control
    rw [nwkDataReqConfirm_some h.inFlight] at hc ⊢
    cases hf : s.txUserConfirm.isSome with
    | false =>
      simp only [hf, Bool.false_eq_true, if_false] at hc ⊢
      exact ⟨hstart.accepted, hstart.handed, hstart.confirmed, hstart.inFlight⟩
    | true =>
      simp only [hf, if_true] at hc ⊢
      have hend := hstart.run_user actions hc
      exact ⟨hend.accepted, hend.handed, hend.confirmed, hend.inFlight⟩

/-! ### Whole runs -/

theorem accepted_callback (s : Tx) (f : Option ConfirmFn) (actions : List UserAction) :
    s.history.accepted <+: (s.callback f actions).history.accepted := by
  cases f with
  | none => exact List.prefix_rfl
  | some f =>
    simp only [callback, Option.isSome_some, if_true]
    exact run_prefix (f := fun t : Tx => t.history.accepted) accepted_user
      { s with history.confirmed := s.history.confirmed ++ [_] } actions

theorem accepted_txConfirm (s : Tx) (actions : List UserAction) :
    s.history.accepted <+: (s.txConfirm actions).history.accepted :=
  accepted_callback { s with txBusy := false } s.txUserConfirm actions

theorem accepted_step (s : Tx) (l : TxStep) :
    s.history.accepted <+: (s.step l).history.accepted := by
  cases l with
  | user a => exact accepted_user s a
  | sendNow nwkBusy => exact (accepted_sendNow s nwkBusy).symm ▸ List.prefix_rfl
  | confirm status control actions =>
    simp only [step, nwkDataReqConfirm]
    split
    case isTrue => exact List.prefix_rfl
    case isFalse =>
      split
      case h_1 => exact accepted_txConfirm (s.release status control) actions
      case h_2 => exact accepted_callback (s.release status control) _ actions

theorem Tracked.step {s : Tx} {done : List Owed} {flight : Option Owed}
    (h : s.Tracked done flight) (l : TxStep) (hc : (s.step l).Carried) :
    ∃ done' flight', (s.step l).Tracked done' flight' := by
  cases l with
  | user a => exact ⟨done, flight, h.user a hc⟩
  | sendNow nwkBusy => exact ⟨done, h.sendNow nwkBusy⟩
  | confirm status control actions => exact h.confirm status control actions hc

theorem Tracked.run {s : Tx} {done : List Owed} {flight : Option Owed}
    (h : s.Tracked done flight) (ls : List TxStep) (hc : (run Tx.step s ls).Carried) :
    ∃ done' flight', (Library.run Tx.step s ls).Tracked done' flight' :=
  run_invariant_of_end (I := fun t : Tx => ∃ done flight, t.Tracked done flight)
    (fun t l hc => hc.of_prefix (accepted_step t l)) (fun _ l ⟨_, _, h⟩ hc => h.step l hc)
    ⟨done, flight, h⟩ ls hc

/-- How the accepted packets, the requests given to LWM and the confirmations relate. -/
structure Accounted (s : Tx) : Prop where
  /-- accepted = handed over ++ still queued, each with what it had at the call -/
  order : s.history.accepted.map Prod.fst = s.history.handed ++ s.queued.map Prod.fst
  /-- a second request is never given to LWM while it holds one -/
  one_held : s.nwkDataReqQueue ≤ 1
  held : s.history.handed.length = s.history.confirmed.length + s.nwkDataReqQueue
  /-- the static packet still is the request LWM holds -/
  unchanged : s.nwkDataReqQueue = 1 →
    s.history.handed.getLast? = some (s.message s.bufPacket.packet)
  /-- the `n`-th confirmation runs the callback of the `n`-th accepted packet, and no other -/
  callbacks : s.history.confirmed =
    (s.history.accepted.take s.history.confirmed.length).map due

def exampleMemory : CallerMemory where
  packets _ := ⟨0x0001#16, 13#8, 13#8, 0#8, .caller 0, 2#8, some (.user 0), 0#8, 0#8⟩
  bytes i := BitVec.ofNat 8 i

end Tx

end Aquila.Mesh
