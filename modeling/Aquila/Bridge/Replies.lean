import Aquila.Bridge.ParseCommand

/-! # Answers to data commands

Every packet queued for a data command is answered when LWM confirms it, in order. But
`txSend` does not look at the result of `Mesh.sendPacket`, so a command that meets a full
queue is forgotten without an answer.
-/

namespace Aquila.Bridge
open Library Mesh

namespace AquilaBridge

def fromCommand (o : Owed) : Bool := decide (o.2 = some txCb)

def inFlight (s : AquilaBridge) : List Owed :=
  if s.tx.nwkDataReqQueue = 0 then []
  else [(s.tx.message s.tx.bufPacket.packet, s.tx.txUserConfirm)]

def waiting (s : AquilaBridge) : List Message :=
  ((s.inFlight ++ s.tx.queued).filter fromCommand).map Prod.fst

/-- Every data command has its own answer, or its transmission is not over. -/
structure Answered (s : AquilaBridge) : Prop where
  commands : s.commands = s.answered.map Prod.fst ++ s.waiting
  /-- the ACK and NACK frames to the PC are the answers, in the same order -/
  replies : s.replies = s.answered.map Prod.snd

def Queues (s : AquilaBridge) : BridgeStep → Prop
  | .parseCommand c _ => c.Sends → s.tx.txBuffer.toList.length < meshTxBufferSize
  | _ => True

instance (s : AquilaBridge) : ∀ l, Decidable (s.Queues l)
  | .parseCommand _ _ => inferInstanceAs (Decidable (_ → _))
  | .rxHandler _ => isTrue trivial
  | .sendNow _ => isTrue trivial
  | .confirm _ _ => isTrue trivial

end AquilaBridge

def BridgeStep.Sized : BridgeStep → Prop
  | .parseCommand c _ => c.Sends → c.frameSize.toNat ≤ maxPayload
  | _ => True

instance : ∀ l : BridgeStep, Decidable l.Sized
  | .parseCommand _ _ => inferInstanceAs (Decidable (_ → _))
  | .rxHandler _ => isTrue trivial
  | .sendNow _ => isTrue trivial
  | .confirm _ _ => isTrue trivial

def BridgeStep.asked : BridgeStep → List Message
  | .parseCommand c _ => if c.Sends then [c.message] else []
  | _ => []

namespace AquilaBridge

def taken (s : AquilaBridge) : List Message :=
  (s.tx.history.accepted.filter fromCommand).map Prod.fst

/-- The mesh layer's account of its packets, and the answers given so far. -/
structure Paired (s : AquilaBridge) : Prop where
  carried : s.tx.Carried
  tracked : ∃ done flight, s.tx.Tracked done flight ∧
    (done.filter fromCommand).map Prod.fst = s.answered.map Prod.fst
  replies : s.replies = s.answered.map Prod.snd

theorem inFlight_eq (s : AquilaBridge) {flight : Option Owed} (h : s.tx.InFlight flight) :
    s.inFlight = flight.toList := by
  cases flight with
  | none => rw [inFlight, if_pos h.1, Option.toList_none]
  | some o =>
    rcases h with ⟨hqueue, _, hconfirm, _, _, hmessage⟩
    rw [inFlight, if_neg (by omega), hmessage, hconfirm, Option.toList_some]

theorem Paired.taken_eq {s : AquilaBridge} (h : s.Paired) :
    s.taken = s.answered.map Prod.fst ++ s.waiting := by
  rcases h.tracked with ⟨done, flight, htracked, hdone⟩
  rw [taken, waiting, s.inFlight_eq htracked.inFlight, htracked.accepted, List.append_assoc,
    List.filter_append, List.map_append, hdone]

theorem Paired.answered_iff {s : AquilaBridge} (h : s.Paired) :
    s.Answered ↔ s.commands = s.taken := by
  rw [h.taken_eq]
  exact ⟨Answered.commands, fun hcommands => ⟨hcommands, h.replies⟩⟩

/-! ### Data commands -/

theorem message_txPacket (s : AquilaBridge) (c : Command) :
    (s.tx.user (.reuse (s.txMemory c))).message (s.txPacket c.message c.frameSize) =
      c.message := by
  have hbytes : ∀ i ∈ List.range c.frameSize.toNat,
      (s.tx.user (.reuse (s.txMemory c))).deref (.caller 0) i = c.data (10 + i) := by
    intro i hi
    change (if 0 + i < c.frameSize.toNat then c.data (10 + (0 + i : ℕ)) else _) = c.data (10 + i)
    rw [Nat.zero_add, if_pos (List.mem_range.mp hi)]
  exact congrArg (Message.mk _ _ _) (List.map_congr_left hbytes)

theorem accepted_txSend (s : AquilaBridge) (c : Command) (stack : TxBufPacket)
    (h : s.tx.txBuffer.toList.length < meshTxBufferSize) :
    (s.txSend c stack).tx.history.accepted =
      s.tx.history.accepted ++ [(c.message, some txCb)] := by
  rcases (s.tx.user (.reuse (s.txMemory c))).user_sendPacket_room 0 stack h with
    ⟨txBuffer, _, hsend⟩
  rw [txSend, hsend]
  exact congrArg (fun m => s.tx.history.accepted ++ [(m, some txCb)]) (s.message_txPacket c)

theorem txSend_full (s : AquilaBridge) (c : Command) (stack : TxBufPacket)
    (h : s.tx.txBuffer.toList.length = meshTxBufferSize) :
    (s.txSend c stack).tx = s.tx.user (.reuse (s.txMemory c)) :=
  (s.tx.user (.reuse (s.txMemory c))).user_sendPacket_full 0 stack h

theorem Paired.of_tracked {s s' : AquilaBridge} (h : s.Paired)
    (haccepted : s'.tx.history.accepted = s.tx.history.accepted)
    (htracked : ∀ done flight, s.tx.Tracked done flight → ∃ flight', s'.tx.Tracked done flight')
    (hanswered : s'.answered = s.answered) (hreplies : s'.replies = s.replies) : s'.Paired where
  carried := by
    rw [Tx.Carried, haccepted]
    exact h.carried
  tracked := by
    rcases h.tracked with ⟨done, flight, hflight, hdone⟩
    rcases htracked done flight hflight with ⟨flight', hflight'⟩
    exact ⟨done, flight', hflight', hanswered ▸ hdone⟩
  replies := by
    rw [hreplies, hanswered]
    exact h.replies

theorem Paired.send_room {s : AquilaBridge} (h : s.Paired) (c : Command) (stack : TxBufPacket)
    (hsized : c.frameSize.toNat ≤ maxPayload)
    (hroom : s.tx.txBuffer.toList.length < meshTxBufferSize) : (s.txSend c stack).Paired := by
  have hcarried : (s.txSend c stack).tx.Carried := by
    rw [Tx.Carried, s.accepted_txSend c stack hroom, List.forall_mem_append,
      List.forall_mem_singleton]
    refine ⟨h.carried, ?_⟩
    rw [Command.message, Memory.length_load]
    exact hsized
  rcases h.tracked with ⟨done, flight, htracked, hdone⟩
  have hreused := htracked.user (.reuse (s.txMemory c)) h.carried
  exact ⟨hcarried, ⟨done, flight, hreused.user (.sendPacket 0 stack) hcarried, hdone⟩, h.replies⟩

theorem Paired.send_full {s : AquilaBridge} (h : s.Paired) (c : Command) (stack : TxBufPacket)
    (hfull : s.tx.txBuffer.toList.length = meshTxBufferSize) : (s.txSend c stack).Paired := by
  have hsend := s.txSend_full c stack hfull
  apply h.of_tracked
  · rw [hsend]
    rfl
  · intro done flight htracked
    rw [hsend]
    exact ⟨flight, htracked.user _ h.carried⟩
  · rfl
  · rfl

/-! ### Other steps -/

/-- A step that neither accepts, hands over nor confirms a packet, and answers nothing. -/
structure Quiet (s s' : AquilaBridge) : Prop where
  tx : s'.tx = s.tx ∨ ∃ enabled, s'.tx = s.tx.user (.setSecurityEnabled enabled)
  commands : s'.commands = s.commands
  answered : s'.answered = s.answered
  replies : s'.replies = s.replies

theorem Quiet.refl (s : AquilaBridge) : Quiet s s := ⟨.inl rfl, rfl, rfl, rfl⟩

theorem Quiet.sendComBuffer {s s' : AquilaBridge} (h : Quiet s s') {bytes : List Byte}
    (hbytes : isReply bytes = false) : Quiet s (s'.sendComBuffer bytes) :=
  ⟨h.tx, h.commands, h.answered, (s'.replies_sendComBuffer bytes hbytes).trans h.replies⟩

theorem Passive.quiet {s s' : AquilaBridge} (h : Passive s s') : Quiet s s' := by
  rcases h.frames with ⟨frames, hframes, hothers⟩
  have hreplies := replies_append s s' hframes (fun frame hframe => (hothers frame hframe).1)
  exact ⟨h.tx, h.commands, h.answered, hreplies⟩

theorem quiet_parseCommand (s : AquilaBridge) (c : Command) (stack : TxBufPacket)
    (h : ¬ c.Sends) : Quiet s (s.parseCommand c stack) := by
  by_cases hget : c.code = some .getOpt
  · rw [s.parseCommand_getOpt c stack hget]
    exact (Quiet.refl s).sendComBuffer rfl
  by_cases hset : c.SetsOptions
  · rw [s.parseCommand_setOpt c stack hset]
    have hoptions : Quiet s (s.withOptions c) := ⟨.inl rfl, rfl, rfl, rfl⟩
    exact hoptions.sendComBuffer rfl
  · exact (s.passive_parseCommand c stack h hget hset).quiet

theorem Paired.quiet {s s' : AquilaBridge} (h : s.Paired) (hquiet : Quiet s s') : s'.Paired := by
  apply h.of_tracked ?_ ?_ hquiet.answered hquiet.replies
  · rcases hquiet.tx with htx | ⟨enabled, htx⟩
    · rw [htx]
    · rw [htx]
      rfl
  · intro done flight htracked
    rcases hquiet.tx with htx | ⟨enabled, htx⟩
    · rw [htx]
      exact ⟨flight, htracked⟩
    · rw [htx]
      exact ⟨flight, htracked.user _ h.carried⟩

theorem Quiet.taken {s s' : AquilaBridge} (h : Quiet s s') : s'.taken = s.taken := by
  rw [AquilaBridge.taken, AquilaBridge.taken]
  rcases h.tx with htx | ⟨enabled, htx⟩
  · rw [htx]
  · rw [htx]
    rfl

/-! ### Confirmations -/

theorem confirm_none (s : AquilaBridge) (status control : Byte) (h : s.tx.nwkDataReqQueue = 0) :
    s.confirm status control = s := by
  rw [confirm, if_neg (fun hcalls => hcalls.1 h), s.tx.nwkDataReqConfirm_none status control [] h]

def confirmedTx (s : AquilaBridge) (status control : Byte) : Tx :=
  { s.tx.confirming status control with txUserConfirm := none }

theorem confirm_some (s : AquilaBridge) {o : Owed} (h : s.tx.InFlight (some o))
    (status control : Byte) :
    s.confirm status control =
      if o.2 = some txCb then
        { s with tx := s.confirmedTx status control }.txCallback o.1 status control
      else { s with tx := s.confirmedTx status control } := by
  have htx : s.tx.nwkDataReqConfirm status control [] = s.confirmedTx status control := by
    rw [Tx.nwkDataReqConfirm_some h, run_nil, ite_self]
    rfl
  rcases h with ⟨hqueue, _, hconfirm, hfn, _, hmessage⟩
  have hcalls : (s.tx.nwkDataReqQueue ≠ 0 ∧ s.tx.bufPacket.packet.confirm = some .txConfirm ∧
      s.tx.txUserConfirm = some txCb) ↔ o.2 = some txCb := by
    rw [hconfirm]
    exact ⟨fun hcalls => hcalls.2.2, fun ho => ⟨by omega, hfn, ho⟩⟩
  simp only [confirm, hcalls, htx, hmessage]

theorem Paired.confirm {s : AquilaBridge} (h : s.Paired) (status control : Byte) :
    (s.confirm status control).Paired := by
  rcases h.tracked with ⟨done, flight, htracked, hdone⟩
  cases flight with
  | none =>
    rw [s.confirm_none status control htracked.inFlight.1]
    exact h
  | some o =>
    have hnext := Tx.confirming_tracked htracked status control
    have htx : (s.confirmedTx status control).Tracked (done ++ [o]) none :=
      ⟨hnext.accepted, hnext.handed, hnext.confirmed, hnext.inFlight⟩
    rw [s.confirm_some htracked.inFlight status control]
    split
    case isTrue ho =>
      have hpacket : fromCommand o = true := decide_eq_true ho
      have hreplies := { s with tx := s.confirmedTx status control }.replies_txCallback o.1
        status control
      rw [txCallback_eq] at hreplies ⊢
      constructor
      case carried => exact h.carried
      case tracked =>
        refine ⟨done ++ [o], none, htx, ?_⟩
        rw [List.filter_append, List.map_append, hdone, List.map_append,
          List.filter_cons_of_pos hpacket]
        rfl
      case replies =>
        rw [hreplies, List.map_append, ← h.replies]
        rfl
    case isFalse ho =>
      have hpacket : ¬ fromCommand o = true := fun hpacket => ho (of_decide_eq_true hpacket)
      refine ⟨h.carried, ⟨done ++ [o], none, htx, ?_⟩, h.replies⟩
      rw [List.filter_append, List.filter_cons_of_neg hpacket, List.filter_nil, List.append_nil]
      exact hdone

theorem accepted_confirm {s : AquilaBridge} (h : s.Paired) (status control : Byte) :
    (s.confirm status control).tx.history.accepted = s.tx.history.accepted := by
  rcases h.tracked with ⟨done, flight, htracked, _⟩
  cases flight with
  | none => rw [s.confirm_none status control htracked.inFlight.1]
  | some o =>
    rw [s.confirm_some htracked.inFlight status control, txCallback_eq]
    split
    case isTrue => rfl
    case isFalse => rfl

/-! ### Whole runs -/

theorem Paired.sendNow {s : AquilaBridge} (h : s.Paired) (nwkBusy : Bool) :
    (s.step (.sendNow nwkBusy)).Paired :=
  h.of_tracked (s.tx.accepted_sendNow nwkBusy) (fun _ _ htracked => htracked.sendNow nwkBusy) rfl
    rfl

theorem Paired.step {s : AquilaBridge} (h : s.Paired) (l : BridgeStep) (hsized : l.Sized) :
    (s.step l).Paired := by
  cases l with
  | parseCommand c stack =>
    by_cases hsends : c.Sends
    · rw [AquilaBridge.step, s.parseCommand_sends c stack hsends]
      have hsent : (s.txSend c stack).Paired := by
        rcases (Ring.length_toList_le s.tx.txBuffer).lt_or_eq with hroom | hfull
        · exact h.send_room c stack (hsized hsends) hroom
        · exact h.send_full c stack hfull
      exact ⟨hsent.carried, hsent.tracked, hsent.replies⟩
    · exact h.quiet (s.quiet_parseCommand c stack hsends)
  | rxHandler ind => exact h.quiet (s.passive_rxHandler ind).quiet
  | sendNow nwkBusy => exact h.sendNow nwkBusy
  | confirm status control => exact h.confirm status control

/-- A step records exactly the commands it asks to be sent. -/
theorem commands_step (s : AquilaBridge) (l : BridgeStep) :
    (s.step l).commands = s.commands ++ l.asked := by
  cases l with
  | parseCommand c stack =>
    rw [BridgeStep.asked, step]
    by_cases hsends : c.Sends
    · rw [s.parseCommand_sends c stack hsends, if_pos hsends]
    · rw [(s.quiet_parseCommand c stack hsends).commands, if_neg hsends, List.append_nil]
  | rxHandler ind => exact (List.append_nil _).symm
  | sendNow nwkBusy => exact (List.append_nil _).symm
  | confirm status control =>
    rw [step, AquilaBridge.confirm, txCallback_eq]
    dsimp only
    split
    case isTrue => exact (List.append_nil _).symm
    case isFalse => exact (List.append_nil _).symm

theorem taken_step {s : AquilaBridge} (h : s.Paired) (l : BridgeStep) (hqueues : s.Queues l) :
    (s.step l).taken = s.taken ++ l.asked := by
  cases l with
  | parseCommand c stack =>
    rw [BridgeStep.asked, step]
    by_cases hsends : c.Sends
    · rw [s.parseCommand_sends c stack hsends, if_pos hsends, taken,
        s.accepted_txSend c stack (hqueues hsends), List.filter_append, List.map_append, taken]
      rfl
    · rw [(s.quiet_parseCommand c stack hsends).taken, if_neg hsends, List.append_nil]
  | rxHandler ind => exact (s.passive_rxHandler ind).quiet.taken.trans (List.append_nil _).symm
  | sendNow nwkBusy =>
    rw [taken, step, s.tx.accepted_sendNow]
    exact (List.append_nil _).symm
  | confirm status control =>
    rw [taken, step, accepted_confirm h]
    exact (List.append_nil _).symm

/-- A step that does not find room is a data command that the mesh layer forgets. -/
theorem taken_step_full (s : AquilaBridge) (l : BridgeStep) (hqueues : ¬ s.Queues l) :
    (s.step l).taken = s.taken ∧ l.asked.length = 1 := by
  cases l with
  | parseCommand c stack =>
    rw [Queues, Classical.not_imp] at hqueues
    rcases hqueues with ⟨hsends, hroom⟩
    have hfull : s.tx.txBuffer.toList.length = meshTxBufferSize :=
      (Ring.length_toList_le s.tx.txBuffer).antisymm (not_lt.mp hroom)
    constructor
    · rw [step, s.parseCommand_sends c stack hsends, taken, s.txSend_full c stack hfull]
      rfl
    · rw [BridgeStep.asked, if_pos hsends]
      rfl
  | rxHandler ind => exact absurd trivial hqueues
  | sendNow nwkBusy => exact absurd trivial hqueues
  | confirm status control => exact absurd trivial hqueues

/-- What the mesh layer accepted before the bridge took over: pings of the address assignment. -/
def Foreign (tx : Tx) : Prop :=
  ∀ o ∈ tx.history.accepted, o.1.payload.length ≤ maxPayload ∧ o.2 ≠ some txCb

instance (tx : Tx) : Decidable (Foreign tx) :=
  inferInstanceAs (Decidable (∀ o ∈ tx.history.accepted, _ ∧ _))

theorem Foreign.filter_eq_nil {tx : Tx} (h : Foreign tx) {packets : List Owed}
    (hsub : packets ⊆ tx.history.accepted) : packets.filter fromCommand = [] := by
  rw [List.filter_eq_nil_iff]
  intro o ho hpacket
  exact (h o (hsub ho)).2 (of_decide_eq_true hpacket)

theorem init_paired (nwk : Network) {tx : Tx} {done : List Owed} {flight : Option Owed}
    (htracked : tx.Tracked done flight) (hforeign : Foreign tx) : (init nwk tx).Paired where
  carried o ho := (hforeign o ho).1
  tracked := by
    have hsub : done ⊆ tx.history.accepted := by
      rw [htracked.accepted, List.append_assoc]
      exact List.subset_append_left _ _
    refine ⟨done, flight, htracked, ?_⟩
    rw [hforeign.filter_eq_nil hsub]
    rfl
  replies := rfl

theorem init_taken (nwk : Network) {tx : Tx} (hforeign : Foreign tx) :
    (init nwk tx).taken = [] := by
  rw [taken, init, hforeign.filter_eq_nil (List.Subset.refl _), List.map_nil]

theorem quiet_begin (s : AquilaBridge) (addr assigned : Word) (channel : Byte) (pan : Word)
    (euiAddr : Fin 8 → Byte) : Quiet s (s.begin addr assigned channel pan euiAddr) := by
  have hmesh : Quiet s (s.meshBegin addr assigned) := by
    rw [meshBegin]
    split
    case isTrue => exact ⟨.inl rfl, rfl, rfl, rfl⟩
    case isFalse => exact ⟨.inl rfl, rfl, rfl, rfl⟩
  have hset : Quiet s { ((s.meshBegin addr assigned).setChannel channel).setPan pan with
      euiAddress := euiAddr } := ⟨hmesh.tx, hmesh.commands, hmesh.answered, hmesh.replies⟩
  have hstart := hset.sendComBuffer (show isReply [cmdStart] = false from rfl)
  exact hstart.sendComBuffer rfl

/-- Every data command so far had its packet accepted. -/
structure AllTaken (s : AquilaBridge) : Prop where
  paired : s.Paired
  commands : s.commands = s.taken

/-- Some data command was forgotten. -/
structure Missed (s : AquilaBridge) : Prop where
  paired : s.Paired
  fewer : s.taken.length < s.commands.length

theorem AllTaken.step {s : AquilaBridge} (h : s.AllTaken) (l : BridgeStep) (hsized : l.Sized)
    (hqueues : s.Queues l) : (s.step l).AllTaken where
  paired := h.paired.step l hsized
  commands := by rw [commands_step, taken_step h.paired l hqueues, h.commands]

theorem AllTaken.missed {s : AquilaBridge} (h : s.AllTaken) (l : BridgeStep) (hsized : l.Sized)
    (hqueues : ¬ s.Queues l) : (s.step l).Missed where
  paired := h.paired.step l hsized
  fewer := by
    rcases s.taken_step_full l hqueues with ⟨htaken, hasked⟩
    rw [commands_step, htaken, List.length_append, hasked, h.commands]
    exact Nat.lt_succ_self _

theorem Missed.step {s : AquilaBridge} (h : s.Missed) (l : BridgeStep) (hsized : l.Sized) :
    (s.step l).Missed where
  paired := h.paired.step l hsized
  fewer := by
    have hfewer := h.fewer
    rw [commands_step, List.length_append]
    by_cases hqueues : s.Queues l
    · rw [taken_step h.paired l hqueues, List.length_append]
      omega
    · rw [(s.taken_step_full l hqueues).1]
      omega

theorem Missed.not_allTaken {s : AquilaBridge} (h : s.Missed) : ¬ s.AllTaken := by
  intro hall
  have hfewer := h.fewer
  rw [hall.commands] at hfewer
  exact lt_irrefl _ hfewer

/-- From a state in which nothing is missed, a run misses nothing exactly if its data commands
always find room. -/
theorem AllTaken.run_answered_iff {s : AquilaBridge} (h : s.AllTaken) (ls : List BridgeStep)
    (hsized : ∀ l ∈ ls, l.Sized) :
    (run AquilaBridge.step s ls).Answered ↔ Guarded AquilaBridge.step Queues s ls := by
  have hpaired : (run AquilaBridge.step s ls).Paired :=
    run_invariant_of (I := Paired) (fun _ l hl ht => ht.step l hl) h.paired ls hsized
  have hall : (run AquilaBridge.step s ls).Answered ↔ (run AquilaBridge.step s ls).AllTaken :=
    hpaired.answered_iff.trans ⟨fun hcommands => ⟨hpaired, hcommands⟩, AllTaken.commands⟩
  rw [hall]
  exact run_iff_guarded_of (I := AllTaken) (K := BridgeStep.Sized)
    (fun _ l hl ht => ht.step l hl) (fun _ l hl ht => ht.missed l hl)
    (fun _ l hl ht => ht.step l hl) (fun _ ht => ht) (fun _ ht => ht.not_allTaken) h ls hsized

/-- After `begin`, the data commands of a run are all answered in order exactly if each of them
finds room in the transmission queue. -/
theorem run_begin_answered_iff (memory : CallerMemory)
    (storage : Fin meshTxBufferSize → TxBufPacket) (bufPacket : TxBufPacket) (before : List TxStep)
    (hforeign : Foreign (run Tx.step (Tx.init memory storage bufPacket) before)) (nwk : Network)
    (addr assigned : Word) (channel : Byte) (pan : Word) (euiAddr : Fin 8 → Byte)
    (ls : List BridgeStep) (hsized : ∀ l ∈ ls, l.Sized) :
    (run step ((init nwk (run Tx.step (Tx.init memory storage bufPacket) before)).begin addr
        assigned channel pan euiAddr) ls).Answered ↔
      Guarded step Queues ((init nwk (run Tx.step (Tx.init memory storage bufPacket) before)).begin
        addr assigned channel pan euiAddr) ls := by
  have hcarried : (run Tx.step (Tx.init memory storage bufPacket) before).Carried :=
    fun o ho => (hforeign o ho).1
  rcases (Tx.init_tracked memory storage bufPacket).run before hcarried with
    ⟨done, flight, htracked⟩
  have hquiet := quiet_begin (init nwk (run Tx.step (Tx.init memory storage bufPacket) before)) addr
    assigned channel pan euiAddr
  have hcommands := hquiet.commands.trans ((init_taken nwk hforeign).symm.trans hquiet.taken.symm)
  have hstart : ((init nwk (run Tx.step (Tx.init memory storage bufPacket) before)).begin addr
      assigned channel pan euiAddr).AllTaken :=
    ⟨(init_paired nwk htracked hforeign).quiet hquiet, hcommands⟩
  exact hstart.run_answered_iff ls hsized

def exampleCommand : Command :=
  ⟨(0 : Memory Byte).store 0 [cmdData, 0, 0, 0xFF, 0, 0x01, 0, 13, 13, 1, 0x2A], 11⟩

def exampleStep : BridgeStep := .parseCommand exampleCommand exampleStack

/-- A command is sent and answered, and a second one waits. -/
theorem exampleRun_answered :
    (run step exampleBridge [exampleStep, .sendNow false, exampleStep, .confirm 0 0x30]).Answered :=
  (run_begin_answered_iff Tx.exampleMemory _ _ [] (by decide) exampleNetwork 0x00FF 0 0x1A 0xCA5A 0
    [exampleStep, .sendNow false, exampleStep, .confirm 0 0x30] (by decide)).mpr (by decide)

/-- Nine commands while a first one is in flight, and then enough time to send nine packets. -/
def exampleBurst : List BridgeStep :=
  [exampleStep, .sendNow false] ++ List.replicate 9 exampleStep ++
    (List.replicate 9 [.confirm 0 0x30, .sendNow false]).flatten

/-- Nothing waits any more, and the PC has nine answers for its ten commands. -/
theorem exampleBurst_not_answered :
    (∀ l ∈ exampleBurst, l.Sized) ∧ (run step exampleBridge exampleBurst).waiting = [] ∧
      (run step exampleBridge exampleBurst).commands.length = 10 ∧
      (run step exampleBridge exampleBurst).replies.length = 9 ∧
      ¬ (run step exampleBridge exampleBurst).Answered := by
  have hcommands : (run step exampleBridge exampleBurst).commands.length = 10 := by decide +kernel
  have hwaiting : (run step exampleBridge exampleBurst).waiting = [] := by decide +kernel
  have hanswered : (run step exampleBridge exampleBurst).answered.length = 9 := by decide +kernel
  have hreplies : (run step exampleBridge exampleBurst).replies.length = 9 := by decide +kernel
  refine ⟨by decide, hwaiting, hcommands, hreplies, ?_⟩
  intro h
  have hlength := congrArg List.length h.commands
  rw [hwaiting, List.append_nil, List.length_map, hcommands, hanswered] at hlength
  exact absurd hlength (by decide)

end AquilaBridge

end Aquila.Bridge
