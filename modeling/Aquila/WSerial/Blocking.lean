import Aquila.WSerial.Stream

/-! # The busy flag of the serial port

Only the confirmation of its packet clears `appDataReqBusy`. The flag is set even if the shared
queue is full and refuses the packet, and then no confirmation ever comes.
-/

namespace Aquila.WSerial
open Library Mesh

def waiting (tx : Tx) : List (Option ConfirmFn) :=
  (if tx.nwkDataReqQueue = 0 then [] else [tx.txUserConfirm]) ++
    tx.txBuffer.toList.map (fun b => b.packet.confirm)

namespace Stream

def Busy (s : Stream) : Prop := s.sender.appDataReqBusy = true

/-- While the flag is set a packet of the port waits or is in flight. -/
def Live (s : Stream) : Prop := s.Busy → some appDataCb ∈ waiting s.tx

/-- Whatever happens next, the flag is cleared before more packets are confirmed than can
precede the port's own. -/
def Unblocked (s : Stream) : Prop :=
  ∀ ls, Guarded step (fun s _ => s.Busy) s ls → (run step s ls).Busy →
    (run step s ls).tx.history.confirmed.length ≤
      s.tx.history.confirmed.length + meshTxBufferSize

def Sends (s : Stream) : StreamCall → Prop
  | .write _ _ => s.sender.txBuffer.isFull = true ∧ s.sender.Hands
  | .flush _ => s.sender.Hands
  | .loop now _ _ => s.sender.lastTimeSent + sendInterval < now ∧ s.sender.Hands
  | .other _ _ _ => False
  | .setSecurityEnabled _ => False

def FindsRoom (s : Stream) (c : StreamCall) : Prop := s.Sends c → s.tx.txBuffer.isFull = false

def entry (s : Stream) (status control : Byte) : Stream :=
  { s with tx := s.tx.confirming status control }

/-- The queue has room for each packet of the port, also for those that other modules'
callbacks make it send. -/
def Room (s : Stream) : StreamStep → Prop
  | .call c => s.FindsRoom c
  | .sendNow _ => True
  | .confirm status control calls =>
    s.tx.nwkDataReqQueue ≠ 0 → s.tx.txUserConfirm ≠ none → s.tx.txUserConfirm ≠ some appDataCb →
      Guarded call FindsRoom (s.entry status control) calls

end Stream

/-! ### Packets that join the queue -/

/-- The mesh layer differs only by packets with the given callbacks at the end of the queue. -/
structure Grown (tx tx' : Tx) (more : List (Option ConfirmFn)) : Prop where
  queue : tx'.nwkDataReqQueue = tx.nwkDataReqQueue
  busy : tx'.txBusy = tx.txBusy
  confirm : tx'.txUserConfirm = tx.txUserConfirm
  packet : tx'.bufPacket = tx.bufPacket
  confirmed : tx'.history.confirmed = tx.history.confirmed
  queued : tx'.txBuffer.toList.map (fun b => b.packet.confirm) =
    tx.txBuffer.toList.map (fun b => b.packet.confirm) ++ more

theorem Grown.refl (tx : Tx) : Grown tx tx [] :=
  ⟨rfl, rfl, rfl, rfl, rfl, (List.append_nil _).symm⟩

theorem Grown.waiting {tx tx' : Tx} {more : List (Option ConfirmFn)} (h : Grown tx tx' more) :
    waiting tx' = waiting tx ++ more := by
  rw [WSerial.waiting, h.queue, h.confirm, h.queued, ← List.append_assoc, ← WSerial.waiting]

theorem Grown.inFlight {tx tx' : Tx} {more : List (Option ConfirmFn)} (h : Grown tx tx' more)
    {flight : Option Owed} (hflight : tx.InFlight flight) : tx'.InFlight flight :=
  hflight.frame h.queue h.busy h.confirm h.packet

def joining (tx : Tx) (f : Option ConfirmFn) : List (Option ConfirmFn) :=
  if tx.txBuffer.isFull then [] else [f]

theorem queuePacket_grown (tx : Tx) (packet : TxPacket) (bytes : ℕ → Byte)
    (stack : TxBufPacket) :
    Grown tx (queuePacket tx packet bytes stack).2 (joining tx packet.confirm) := by
  let reused := tx.user (.reuse ⟨fun _ => packet, bytes⟩)
  rw [joining]
  split
  case isTrue hfull =>
    have hsame := reused.user_sendPacket_full 0 stack ((Ring.isFull_iff _).mp hfull)
    have htx : (queuePacket tx packet bytes stack).2 = reused := hsame
    rw [htx]
    exact ⟨rfl, rfl, rfl, rfl, rfl, (List.append_nil _).symm⟩
  case isFalse hroom =>
    rw [Ring.isFull_iff] at hroom
    rcases reused.user_sendPacket_room 0 stack
      (lt_of_le_of_ne (Ring.length_toList_le _) hroom) with ⟨txBuffer, hlist, hsent⟩
    have htx : (queuePacket tx packet bytes stack).2 = _ := hsent
    rw [htx]
    constructor
    case queued =>
      dsimp only
      rw [hlist, List.map_append]
      rfl
    all_goals rfl

namespace Stream

theorem sendPacketNow_grown (s : Stream) (stack : TxBufPacket) (h : s.sender.Hands) :
    (s.sendPacketNow stack).Busy ∧
      Grown s.tx (s.sendPacketNow stack).tx (joining s.tx (some appDataCb)) := by
  rw [s.sendPacketNow_hands stack h]
  constructor
  · change (s.sender.sendPacketNow _).appDataReqBusy = true
    rw [Sender.sendPacketNow_hands _ _ h]
  · exact queuePacket_grown s.tx s.sender.txPacket s.sender.packetData stack

/-- A call in which the port sends sets the flag, whether or not the packet joins the queue. -/
theorem call_sends (s : Stream) (c : StreamCall) (h : s.Sends c) :
    ¬ s.Busy ∧ (s.call c).Busy ∧
      Grown s.tx (s.call c).tx (joining s.tx (some appDataCb)) := by
  have hidle (hands : s.sender.Hands) : ¬ s.Busy := by
    rw [Busy, hands.2]
    exact Bool.false_ne_true
  cases c with
  | write c stack =>
    rw [call, if_pos h.1]
    exact ⟨hidle h.2, s.sendPacketNow_grown stack h.2⟩
  | flush stack => exact ⟨hidle h, s.sendPacketNow_grown stack h⟩
  | loop now later stack =>
    rw [call, if_pos h.1]
    exact ⟨hidle h.2, s.sendPacketNow_grown stack h.2⟩
  | other p bytes stack => exact absurd h id
  | setSecurityEnabled enabled => exact absurd h id

theorem call_quiet (s : Stream) (c : StreamCall) (h : ¬ s.Sends c) :
    ((s.call c).Busy ↔ s.Busy) ∧
      ∃ more, some appDataCb ∉ more ∧ Grown s.tx (s.call c).tx more := by
  cases c with
  | write c stack =>
    rw [call]
    split
    case isTrue hfull =>
      rw [s.sendPacketNow_idle stack fun hands => h ⟨hfull, hands⟩]
      exact ⟨Iff.rfl, [], List.not_mem_nil, Grown.refl s.tx⟩
    case isFalse => exact ⟨Iff.rfl, [], List.not_mem_nil, Grown.refl s.tx⟩
  | flush stack =>
    rw [call, s.sendPacketNow_idle stack h]
    exact ⟨Iff.rfl, [], List.not_mem_nil, Grown.refl s.tx⟩
  | loop now later stack =>
    rw [call]
    split
    case isTrue hdue =>
      rw [s.sendPacketNow_idle stack fun hands => h ⟨hdue, hands⟩]
      exact ⟨Iff.rfl, [], List.not_mem_nil, Grown.refl s.tx⟩
    case isFalse => exact ⟨Iff.rfl, [], List.not_mem_nil, Grown.refl s.tx⟩
  | other p bytes stack =>
    have hother : some appDataCb ∉ joining s.tx p.packet.confirm := by
      rw [joining]
      split
      case isTrue => exact List.not_mem_nil
      case isFalse =>
        rw [List.mem_singleton]
        exact p.other.symm
    exact ⟨Iff.rfl, _, hother, queuePacket_grown s.tx p.packet bytes stack⟩
  | setSecurityEnabled enabled =>
    exact ⟨Iff.rfl, [], List.not_mem_nil, rfl, rfl, rfl, rfl, rfl, (List.append_nil _).symm⟩

/-! ### The flag and the queue -/

/-- The flag is set exactly while one packet of the port waits or is in flight. -/
structure Balanced (flight : Option Owed) (s : Stream) : Prop where
  inFlight : s.tx.InFlight flight
  once : (waiting s.tx).count (some appDataCb) ≤ 1
  live : s.Busy ↔ some appDataCb ∈ waiting s.tx

/-- The flag is set and nothing is left that would clear it. -/
structure Stuck (flight : Option Owed) (s : Stream) : Prop where
  inFlight : s.tx.InFlight flight
  busy : s.Busy
  gone : some appDataCb ∉ waiting s.tx

/-- The flag is set for ever. -/
def Blocked (s : Stream) : Prop := ∃ flight, s.Stuck flight

theorem Stuck.not_live {s : Stream} {flight : Option Owed} (h : s.Stuck flight) : ¬ s.Live :=
  fun hlive => h.gone (hlive h.busy)

theorem Balanced.call {s : Stream} {flight : Option Owed} (h : s.Balanced flight)
    (c : StreamCall) (hc : s.FindsRoom c) : (s.call c).Balanced flight := by
  by_cases hsends : s.Sends c
  · rcases s.call_sends c hsends with ⟨hidle, hbusy, hgrown⟩
    have hroom : ¬ s.tx.txBuffer.isFull = true := Bool.not_eq_true _ ▸ hc hsends
    -- the flag was clear, so the packet that joins is the port's only one
    have hgone : some appDataCb ∉ waiting s.tx := fun hmem => hidle (h.live.mpr hmem)
    rw [joining, if_neg hroom] at hgrown
    constructor
    case inFlight => exact hgrown.inFlight h.inFlight
    case once =>
      rw [hgrown.waiting, List.count_append, List.count_eq_zero_of_not_mem hgone,
        List.count_singleton_self]
    case live =>
      rw [hgrown.waiting]
      exact iff_of_true hbusy (List.mem_append_right _ (List.mem_singleton.mpr rfl))
  · rcases s.call_quiet c hsends with ⟨hbusy, more, hmore, hgrown⟩
    constructor
    case inFlight => exact hgrown.inFlight h.inFlight
    case once =>
      rw [hgrown.waiting, List.count_append, List.count_eq_zero_of_not_mem hmore]
      exact h.once
    case live => rw [hgrown.waiting, List.mem_append, or_iff_left hmore, hbusy, h.live]

/-- A packet that the queue refuses leaves the flag set without a packet to clear it. -/
theorem Balanced.stuck_call {s : Stream} {flight : Option Owed} (h : s.Balanced flight)
    (c : StreamCall) (hc : ¬ s.FindsRoom c) : (s.call c).Stuck flight := by
  rw [FindsRoom, Classical.not_imp, Bool.not_eq_false] at hc
  rcases s.call_sends c hc.1 with ⟨hidle, hbusy, hgrown⟩
  rw [joining, if_pos hc.2] at hgrown
  constructor
  case inFlight => exact hgrown.inFlight h.inFlight
  case busy => exact hbusy
  case gone =>
    rw [hgrown.waiting, List.append_nil]
    exact fun hmem => hidle (h.live.mpr hmem)

theorem Stuck.call {s : Stream} {flight : Option Owed} (h : s.Stuck flight) (c : StreamCall) :
    (s.call c).Stuck flight := by
  have hsends : ¬ s.Sends c := fun hsends => (s.call_sends c hsends).1 h.busy
  rcases s.call_quiet c hsends with ⟨hbusy, more, hmore, hgrown⟩
  constructor
  case inFlight => exact hgrown.inFlight h.inFlight
  case busy => exact hbusy.mpr h.busy
  case gone =>
    rw [hgrown.waiting, List.mem_append, not_or]
    exact ⟨h.gone, hmore⟩

/-! ### The mesh layer and LWM -/

/-- `sendNow` takes the oldest packet from the queue, and it is in flight then. -/
theorem waiting_sendNow {tx : Tx} {flight : Option Owed} (h : tx.InFlight flight)
    (nwkBusy : Bool) : (∃ flight', (tx.sendNow nwkBusy).InFlight flight') ∧
      waiting (tx.sendNow nwkBusy) = waiting tx ∧
      (tx.sendNow nwkBusy).history.confirmed = tx.history.confirmed := by
  rcases tx.sendNow_cases nwkBusy with ⟨-, hsend⟩ | ⟨b, txBuffer, hlist, hbusy, hsend⟩
  · rw [hsend]
    exact ⟨⟨flight, h⟩, rfl, rfl⟩
  · cases flight with
    | some o => exact absurd (hbusy.symm.trans h.2.1) Bool.false_ne_true
    | none =>
      rw [hsend]
      constructor
      · exact ⟨some b.owed, h.sent b txBuffer⟩
      · constructor
        · rw [waiting, waiting, h.1, hlist]
          rfl
        · rfl

theorem waiting_confirming {tx : Tx} {o : Owed} (h : tx.InFlight (some o))
    (status control : Byte) :
    waiting tx = tx.txUserConfirm :: waiting (tx.confirming status control) := by
  have hqueue : tx.nwkDataReqQueue = 1 := h.1
  rw [waiting, waiting, hqueue, Tx.confirming, Tx.release, hqueue]
  rfl

theorem waiting_forget {tx : Tx} (h : tx.nwkDataReqQueue = 0) :
    waiting { tx with txUserConfirm := none } = waiting tx := by
  rw [waiting, waiting, h]
  rfl

theorem confirm_some {s : Stream} {o : Owed} (h : s.tx.InFlight (some o)) (status control : Byte)
    (calls : List StreamCall) :
    s.nwkDataReqConfirm status control calls =
      let s' :=
        if s.tx.txUserConfirm = none then s.entry status control
        else if s.tx.txUserConfirm = some appDataCb then
          { s.entry status control with sender := s.sender.step .appDataCb }
        else run Stream.call (s.entry status control) calls
      { s' with tx.txUserConfirm := none } := by
  rcases h with ⟨hqueue, _, _, hfn, _, _⟩
  rw [nwkDataReqConfirm, if_neg (by omega)]
  dsimp only
  split
  case h_1 =>
    let idle : Stream := { s with tx := { s.tx.release status control with txBusy := false } }
    change { idle.callback s.tx.txUserConfirm calls with tx.txUserConfirm := none } = _
    rw [callback, entry, Tx.confirming]
    cases hf : s.tx.txUserConfirm with
    | none => rfl
    | some f => rfl
  case h_2 hother => exact absurd hfn hother

theorem confirm_own {s : Stream} {o : Owed} (h : s.tx.InFlight (some o))
    (hf : s.tx.txUserConfirm = some appDataCb) (status control : Byte) (calls : List StreamCall) :
    ¬ (s.nwkDataReqConfirm status control calls).Busy ∧
      (s.nwkDataReqConfirm status control calls).tx =
        { s.tx.confirming status control with txUserConfirm := none } := by
  rw [confirm_some h, hf, if_neg (Option.some_ne_none _), if_pos rfl]
  exact ⟨Bool.false_ne_true, rfl⟩

theorem confirm_other {s : Stream} {o : Owed} (h : s.tx.InFlight (some o))
    (hf : s.tx.txUserConfirm ≠ some appDataCb) (status control : Byte) (calls : List StreamCall) :
    ∃ calls', (s.Room (.confirm status control calls) ↔
        Guarded Stream.call FindsRoom (s.entry status control) calls') ∧
      s.nwkDataReqConfirm status control calls =
        { run Stream.call (s.entry status control) calls' with tx.txUserConfirm := none } := by
  rw [confirm_some h, if_neg hf]
  by_cases hnone : s.tx.txUserConfirm = none
  · rw [if_pos hnone]
    exact ⟨[], iff_of_true (fun _ hsome => absurd hnone hsome) trivial, rfl⟩
  · rw [if_neg hnone]
    have hheld : s.tx.nwkDataReqQueue ≠ 0 := by
      rw [h.1]
      exact Nat.one_ne_zero
    constructor
    case w => exact calls
    case h =>
      constructor
      · exact ⟨fun hroom => hroom hheld hnone hf, fun hguarded _ _ _ => hguarded⟩
      · rfl

theorem confirm_none {s : Stream} (h : s.tx.InFlight none) (status control : Byte)
    (calls : List StreamCall) : s.nwkDataReqConfirm status control calls = s := by
  rw [nwkDataReqConfirm, if_pos h.1]

/-! ### Steps -/

theorem Balanced.entry {s : Stream} {o : Owed} (h : s.Balanced (some o))
    (hf : s.tx.txUserConfirm ≠ some appDataCb) (status control : Byte) :
    (s.entry status control).Balanced none := by
  have hwaiting := waiting_confirming h.inFlight status control
  have honce := h.once
  have hlive := h.live
  rw [hwaiting, List.count_cons_of_ne hf] at honce
  rw [hwaiting, List.mem_cons, or_iff_right hf.symm] at hlive
  exact ⟨h.inFlight.confirming status control, honce, hlive⟩

theorem Balanced.forget {s : Stream} (h : s.Balanced none) :
    Balanced none { s with tx.txUserConfirm := none } where
  inFlight := h.inFlight
  once := by
    rw [waiting_forget h.inFlight.1]
    exact h.once
  live := by
    rw [waiting_forget h.inFlight.1]
    exact h.live

theorem Stuck.entry {s : Stream} {o : Owed} (h : s.Stuck (some o)) (status control : Byte) :
    (s.entry status control).Stuck none := by
  have hgone := h.gone
  rw [waiting_confirming h.inFlight status control, List.mem_cons, not_or] at hgone
  exact ⟨h.inFlight.confirming status control, h.busy, hgone.2⟩

theorem Stuck.forget {s : Stream} (h : s.Stuck none) :
    Stuck none { s with tx.txUserConfirm := none } where
  inFlight := h.inFlight
  busy := h.busy
  gone := by
    rw [waiting_forget h.inFlight.1]
    exact h.gone

theorem Balanced.confirm_own {s : Stream} {o : Owed} (h : s.Balanced (some o))
    (hf : s.tx.txUserConfirm = some appDataCb) (status control : Byte) (calls : List StreamCall) :
    (s.nwkDataReqConfirm status control calls).Balanced none := by
  rcases Stream.confirm_own h.inFlight hf status control calls with ⟨hidle, htx⟩
  have hentry := h.inFlight.confirming status control
  have honce := h.once
  rw [waiting_confirming h.inFlight status control, hf, List.count_cons_self] at honce
  have hzero : (waiting (s.tx.confirming status control)).count (some appDataCb) = 0 := by omega
  constructor
  case inFlight =>
    rw [htx]
    exact hentry
  case once =>
    rw [htx, waiting_forget hentry.1, hzero]
    exact Nat.zero_le 1
  case live =>
    rw [htx, waiting_forget hentry.1]
    exact iff_of_false hidle (List.count_eq_zero.mp hzero)

theorem Balanced.step {s : Stream} {flight : Option Owed} (h : s.Balanced flight) (l : StreamStep)
    (hl : s.Room l) : ∃ flight', (s.step l).Balanced flight' := by
  cases l with
  | call c => exact ⟨flight, h.call c hl⟩
  | sendNow nwkBusy =>
    rcases waiting_sendNow h.inFlight nwkBusy with ⟨⟨flight', hflight⟩, hwaiting, -⟩
    exact ⟨flight', hflight, hwaiting ▸ h.once, hwaiting ▸ h.live⟩
  | confirm status control calls =>
    cases flight with
    | none =>
      rw [Stream.step, confirm_none h.inFlight]
      exact ⟨none, h⟩
    | some o =>
      by_cases hf : s.tx.txUserConfirm = some appDataCb
      · exact ⟨none, h.confirm_own hf status control calls⟩
      · rcases confirm_other h.inFlight hf status control calls with ⟨calls', hroom, hstep⟩
        have hrun := run_guarded (I := Balanced none) (fun _ c ht hc => ht.call c hc)
          (h.entry hf status control) (hroom.mp hl)
        rw [Stream.step, hstep]
        exact ⟨none, hrun.forget⟩

theorem Balanced.stuck_step {s : Stream} {flight : Option Owed} (h : s.Balanced flight)
    (l : StreamStep) (hl : ¬ s.Room l) : (s.step l).Blocked := by
  cases l with
  | call c => exact ⟨flight, h.stuck_call c hl⟩
  | sendNow nwkBusy => exact absurd trivial hl
  | confirm status control calls =>
    cases flight with
    | none => exact absurd (fun hheld => absurd h.inFlight.1 hheld) hl
    | some o =>
      by_cases hf : s.tx.txUserConfirm = some appDataCb
      · exact absurd (fun _ _ hother => absurd hf hother) hl
      · rcases confirm_other h.inFlight hf status control calls with ⟨calls', hroom, hstep⟩
        have hrun := run_lost (I := Balanced none) (fun _ c ht hc => ht.call c hc)
          (fun _ c ht hc => ht.stuck_call c hc) (fun _ c ht => ht.call c)
          (h.entry hf status control) (mt hroom.mpr hl)
        rw [Stream.step, hstep]
        exact ⟨none, hrun.forget⟩

theorem Blocked.step {s : Stream} (hblocked : s.Blocked) (l : StreamStep) :
    (s.step l).Blocked := by
  rcases hblocked with ⟨flight, h⟩
  cases l with
  | call c => exact ⟨flight, h.call c⟩
  | sendNow nwkBusy =>
    rcases waiting_sendNow h.inFlight nwkBusy with ⟨⟨flight', hflight⟩, hwaiting, -⟩
    exact ⟨flight', hflight, h.busy, hwaiting ▸ h.gone⟩
  | confirm status control calls =>
    cases flight with
    | none =>
      rw [Stream.step, confirm_none h.inFlight]
      exact ⟨none, h⟩
    | some o =>
      have hf : s.tx.txUserConfirm ≠ some appDataCb := by
        intro hf
        apply h.gone
        rw [waiting_confirming h.inFlight status control, hf]
        exact List.mem_cons_self
      rcases confirm_other h.inFlight hf status control calls with ⟨calls', -, hstep⟩
      have hrun := run_invariant (I := Stuck none) (fun _ c ht => ht.call c)
        (h.entry status control) calls'
      rw [Stream.step, hstep]
      exact ⟨none, hrun.forget⟩

/-! ### The packet that clears the flag -/

/-- A packet of the port waits, and it is not confirmed later than as number `n`. -/
structure Ahead (n : ℕ) (flight : Option Owed) (s : Stream) : Prop where
  inFlight : s.tx.InFlight flight
  place : ∃ before after, waiting s.tx = before ++ some appDataCb :: after ∧
    before.length + s.tx.history.confirmed.length ≤ n

/-- While the flag is set, packets only join behind the port's own. -/
theorem Ahead.call {s : Stream} {n : ℕ} {flight : Option Owed} (h : s.Ahead n flight)
    (hbusy : s.Busy) (c : StreamCall) : (s.call c).Busy ∧ (s.call c).Ahead n flight := by
  have hsends : ¬ s.Sends c := fun hsends => (s.call_sends c hsends).1 hbusy
  rcases s.call_quiet c hsends with ⟨hkept, more, -, hgrown⟩
  rcases h.place with ⟨before, after, hwaiting, hplace⟩
  constructor
  · exact hkept.mpr hbusy
  · constructor
    case inFlight => exact hgrown.inFlight h.inFlight
    case place =>
      rw [← hgrown.confirmed] at hplace
      have hbehind : waiting (s.call c).tx = before ++ some appDataCb :: (after ++ more) := by
        rw [hgrown.waiting, hwaiting, List.append_assoc, List.cons_append]
      exact ⟨before, after ++ more, hbehind, hplace⟩

/-- A confirmation of another packet brings the port's own one place forward. -/
theorem Ahead.entry {s : Stream} {n : ℕ} {o : Owed} (h : s.Ahead n (some o))
    (hf : s.tx.txUserConfirm ≠ some appDataCb) (status control : Byte) :
    (s.entry status control).Ahead n none := by
  rcases h.place with ⟨before, after, hwaiting, hplace⟩
  rw [waiting_confirming h.inFlight status control] at hwaiting
  cases before with
  -- the packet confirmed is not the port's, so something precedes the port's own
  | nil => exact absurd (List.cons.inj hwaiting).1 hf
  | cons first before =>
    constructor
    case inFlight => exact h.inFlight.confirming status control
    case place =>
      have hconfirmed : (s.entry status control).tx.history.confirmed.length =
          s.tx.history.confirmed.length + 1 := by
        rw [Stream.entry, Tx.confirming, List.length_append, List.length_singleton]
      rw [List.length_cons] at hplace
      exact ⟨before, after, (List.cons.inj hwaiting).2, by omega⟩

theorem Ahead.forget {s : Stream} {n : ℕ} (h : s.Ahead n none) :
    Ahead n none { s with tx.txUserConfirm := none } where
  inFlight := h.inFlight
  place := by
    rw [waiting_forget h.inFlight.1]
    exact h.place

theorem Ahead.step {s : Stream} {n : ℕ} {flight : Option Owed} (h : s.Ahead n flight)
    (hbusy : s.Busy) (l : StreamStep) (hend : (s.step l).Busy) :
    ∃ flight', (s.step l).Ahead n flight' := by
  cases l with
  | call c => exact ⟨flight, (h.call hbusy c).2⟩
  | sendNow nwkBusy =>
    rcases waiting_sendNow h.inFlight nwkBusy with ⟨⟨flight', hflight⟩, hwaiting, hconfirmed⟩
    constructor
    constructor
    case inFlight => exact hflight
    case place =>
      rw [Stream.step, hwaiting, hconfirmed]
      exact h.place
  | confirm status control calls =>
    cases flight with
    | none =>
      rw [Stream.step, confirm_none h.inFlight]
      exact ⟨none, h⟩
    | some o =>
      by_cases hf : s.tx.txUserConfirm = some appDataCb
      · exact absurd hend (confirm_own h.inFlight hf status control calls).1
      · rcases confirm_other h.inFlight hf status control calls with ⟨calls', -, hstep⟩
        have hentry : (s.entry status control).Busy ∧ (s.entry status control).Ahead n none :=
          ⟨hbusy, h.entry hf status control⟩
        have hrun := run_invariant (I := fun t : Stream => t.Busy ∧ t.Ahead n none)
          (fun _ c ht => ht.2.call ht.1 c) hentry calls'
        rw [Stream.step, hstep]
        exact ⟨none, hrun.2.forget⟩

theorem length_waiting_le (tx : Tx) : (waiting tx).length ≤ meshTxBufferSize + 1 := by
  have hqueued := Ring.length_toList_le tx.txBuffer
  rw [waiting, List.length_append, List.length_map]
  split
  case isTrue =>
    rw [List.length_nil]
    omega
  case isFalse =>
    rw [List.length_singleton]
    omega

theorem Balanced.ahead {s : Stream} {flight : Option Owed} (h : s.Balanced flight)
    (hbusy : s.Busy) : s.Ahead (s.tx.history.confirmed.length + meshTxBufferSize) flight := by
  rcases List.append_of_mem (h.live.mp hbusy) with ⟨before, after, hwaiting⟩
  have hlength := length_waiting_le s.tx
  rw [hwaiting, List.length_append, List.length_cons] at hlength
  constructor
  case inFlight => exact h.inFlight
  case place => exact ⟨before, after, hwaiting, by omega⟩

theorem Balanced.unblocked {s : Stream} {flight : Option Owed} (h : s.Balanced flight) :
    s.Unblocked := by
  intro ls hguarded hend
  have hrun := run_guarded
    (I := fun t : Stream => t.Busy →
      ∃ flight, t.Ahead (s.tx.history.confirmed.length + meshTxBufferSize) flight)
    (fun t l ht hbusy hbusy' => (ht hbusy).elim fun _ hahead => hahead.step hbusy l hbusy')
    (fun hbusy => ⟨flight, h.ahead hbusy⟩) hguarded
  rcases hrun hend with ⟨_, hahead⟩
  rcases hahead.place with ⟨before, _, _, hplace⟩
  exact (Nat.le_add_left _ _).trans hplace

/-! ### Runs -/

theorem init_balanced (destAddr : Word) (buffer : Fin bufferSize → Byte) (memory : CallerMemory)
    (storage : Fin meshTxBufferSize → TxBufPacket) (bufPacket : TxBufPacket) :
    (init destAddr buffer memory storage bufPacket).Balanced none := by
  have hempty : waiting (init destAddr buffer memory storage bufPacket).tx = [] := by
    rw [waiting, init, Tx.init, Ring.toList_init]
    rfl
  constructor
  case inFlight => exact ⟨rfl, rfl⟩
  case once =>
    rw [hempty]
    exact Nat.zero_le 1
  case live =>
    rw [hempty]
    exact iff_of_false Bool.false_ne_true List.not_mem_nil

/-- The flag is set only while a packet waits that will clear it, and is then cleared, exactly
in the runs in which the queue has room for every packet of the port. -/
theorem run_unblocked_iff (destAddr : Word) (buffer : Fin bufferSize → Byte)
    (memory : CallerMemory) (storage : Fin meshTxBufferSize → TxBufPacket)
    (bufPacket : TxBufPacket) (ls : List StreamStep) :
    ((run step (init destAddr buffer memory storage bufPacket) ls).Live ∧
        (run step (init destAddr buffer memory storage bufPacket) ls).Unblocked) ↔
      Guarded step Room (init destAddr buffer memory storage bufPacket) ls :=
  run_iff_guarded (I := fun s : Stream => ∃ flight, s.Balanced flight)
    (P := fun s : Stream => s.Live ∧ s.Unblocked)
    (fun _ l ⟨_, h⟩ hl => h.step l hl) (fun _ l ⟨_, h⟩ hl => h.stuck_step l hl)
    (fun _ l h => Blocked.step h l) (fun _ ⟨_, h⟩ => ⟨h.live.mp, h.unblocked⟩)
    (fun _ ⟨_, h⟩ hlive => h.not_live hlive.1)
    ⟨none, init_balanced destAddr buffer memory storage bufPacket⟩ ls

def examplePacket : OtherPacket where
  packet := ⟨0x0001#16, 13#8, 13#8, 0#8, .caller 0, 2#8, some (.user 1), 0#8, 0#8⟩
  other := by decide

def exampleStack : TxBufPacket := ⟨examplePacket.packet, 0⟩

/-- Other modules fill the queue before a byte is written and flushed. -/
def exampleFull : List StreamStep :=
  List.replicate 8 (.call (.other examplePacket 0 exampleStack)) ++
    [.call (.write 1#8 exampleStack), .call (.flush exampleStack)]

/-- Nothing will clear the flag, and it is set for ever. -/
theorem exampleFull_blocks :
    let s := init 0x0001#16 0 ⟨fun _ => examplePacket.packet, 0⟩ (fun _ => exampleStack)
      exampleStack
    ¬ (run step s exampleFull).Live ∧ ∀ later, (run step (run step s exampleFull) later).Busy := by
  intro s
  have hstuck : (run step s exampleFull).Stuck none := by
    constructor
    case inFlight => exact ⟨by decide +kernel, by decide +kernel⟩
    case busy => exact (by decide +kernel : (run step s exampleFull).sender.appDataReqBusy = true)
    case gone => decide +kernel
  constructor
  · exact hstuck.not_live
  · intro later
    rcases run_invariant (I := Blocked) (fun _ l h => h.step l) ⟨none, hstuck⟩ later with
      ⟨_, hend⟩
    exact hend.busy

end Stream

end Aquila.WSerial
