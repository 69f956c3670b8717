import Aquila.Lwm.Provenance

/-! # Confirmed requests

A request that is confirmed with success has had its frame transmitted; where it asks for an
acknowledgement, the node has been handed one with the sequence number of its frame. Sequence
numbers are given in turn to all frames of the node's own.
-/

namespace Aquila.Lwm
open Library Bridge Mesh

section

variable (origin : NwkFrame → Prop) (addr : Word)

/-- The node has been handed an acknowledgement of a sequence number. -/
def Heard (seq : Byte) : Prop :=
  ∃ f control, Clear origin f ∧ Mine addr f ∧ f.header.nwkDstEndpoint = 0 ∧
    f.payload = ackCommand seq control

/-- The frame of a request is the node's own, and is not confirmed before it may be. -/
def Served (f : NwkFrame) : Prop :=
  f.Owed → f.header.nwkSrcAddr = addr ∧
    (f.state = .txConfirm → f.status = .success → f.header.ackRequest = true →
      Heard origin addr f.header.nwkSeq)

/-- A request has been given to `nwkTxFrame`, and answered if it asks for it. -/
def Answered (history : List Record) (number : ℕ) (params : DataParams) : Prop :=
  ∃ g, .launched number params g ∈ history ∧
    (g.header.ackRequest = true → Heard origin addr g.header.nwkSeq)

/-- Requests, their frames and what has been recorded of them agree. -/
structure Nwk.Faithful (n : Nwk) : Prop where
  service : ∀ e, n.endpoint e = some .service → e = 0
  frame : ∀ i, Served origin n.addr (n.frames i)
  wait : ∀ r ∈ n.dataReqQueue, r.state = .waitConf → ∃ i g, r.frame = some i ∧
    .launched r.number r.params g ∈ n.history ∧ (n.frames i).header.nwk = g.header.nwk
  confirm : ∀ r ∈ n.dataReqQueue, r.state = .confirm → r.status = .success →
    Answered origin n.addr n.history r.number r.params
  record : ∀ number control, .confirmed number .success control ∈ n.history →
    ∃ params, Answered origin n.addr n.history number params

end

def Nwk.origins (n : Nwk) : List NwkFrame := n.history.filterMap Record.origin

def sequence : ℕ → List Byte
  | 0 => []
  | count + 1 => BitVec.ofNat 8 (count + 1) :: sequence count

structure Nwk.Numbered (n : Nwk) : Prop where
  next : n.nwkSeqNum = BitVec.ofNat 8 n.origins.length
  numbers : n.origins.map (fun f => f.header.nwkSeq) = sequence n.origins.length

variable {origin : NwkFrame → Prop} {c : Setup} {asks : DataParams → Prop} {addr : Word}
  {f g : NwkFrame} {history history' : List Record} {number : ℕ} {params : DataParams}

theorem Served.of_unowed (h : f.confirm = false) : Served origin addr f := by
  intro howed
  rw [NwkFrame.Owed, h] at howed
  exact absurd howed.2 Bool.false_ne_true

/-- A frame on its way keeps its header, and is not confirmed yet. -/
theorem Served.advance (h : Served origin addr f) (hf : f.state ≠ .free)
    (hconfirm : g.confirm = f.confirm) (hheader : g.header = f.header)
    (hg : g.state ≠ .txConfirm) : Served origin addr g := by
  intro howed
  constructor
  · rw [hheader]
    apply (h ⟨hf, _⟩).1
    rw [← hconfirm]
    exact howed.2
  · exact fun hstate => absurd hstate hg

theorem Answered.mono (h : Answered origin addr history number params)
    (hsub : history ⊆ history') : Answered origin addr history' number params := by
  rcases h with ⟨g, hg, hheard⟩
  exact ⟨g, hsub hg, hheard⟩

namespace Nwk

variable {p : Platform} {n m : Nwk} {i : FrameSlot}

theorem Faithful.congr (h : n.Faithful origin) (hendpoint : m.endpoint = n.endpoint)
    (haddr : m.addr = n.addr) (hqueue : m.dataReqQueue = n.dataReqQueue)
    (hframes : m.frames = n.frames) (hhistory : m.history = n.history) : m.Faithful origin := by
  constructor
  case service =>
    rw [hendpoint]
    exact h.service
  case frame =>
    rw [haddr, hframes]
    exact h.frame
  case wait =>
    rw [hqueue, hframes, hhistory]
    exact h.wait
  case confirm =>
    rw [hqueue, haddr, hhistory]
    exact h.confirm
  case record =>
    rw [haddr, hhistory]
    exact h.record

theorem Faithful.recorded (h : n.Faithful origin) {r : Record} (hr : r.confirmation = none) :
    Faithful origin { n with history := r :: n.history } where
  service := h.service
  frame := h.frame
  wait q hq hwait := by
    rcases h.wait q hq hwait with ⟨i, g, hi, hg, hnwk⟩
    exact ⟨i, g, hi, List.mem_cons_of_mem r hg, hnwk⟩
  confirm q hq hstate hstatus := (h.confirm q hq hstate hstatus).mono (List.subset_cons_self _ _)
  record number control hmem := by
    rcases List.mem_cons.mp hmem with rfl | hmem
    · cases hr
    · rcases h.record number control hmem with ⟨params, hanswered⟩
      exact ⟨params, hanswered.mono (List.subset_cons_self _ _)⟩

/-- A buffer changes; if a request waits for it, it still holds the frame of that request. -/
theorem Faithful.setFrame (h : n.Faithful origin) (hn : n.Sound) (hf : Served origin n.addr f)
    (hkeep : (n.frames i).Owed → f.header.nwk = (n.frames i).header.nwk) :
    (n.setFrame i f).Faithful origin where
  service := h.service
  frame j := by
    by_cases hji : j = i
    · subst hji
      rw [setFrame_self]
      exact hf
    · rw [setFrame_of_ne hji]
      exact h.frame j
  wait r hr hwait := by
    rcases h.wait r hr hwait with ⟨j, g, hj, hg, hnwk⟩
    refine ⟨j, g, hj, hg, ?_⟩
    by_cases hji : j = i
    · subst hji
      rcases hn.owned.frame r hr hwait with ⟨k, hk, howed⟩
      rcases Option.some.inj (hj.symm.trans hk) with rfl
      rw [setFrame_self, hkeep howed]
      exact hnwk
    · rw [setFrame_of_ne hji]
      exact hnwk
  confirm := h.confirm
  record := h.record

theorem Faithful.take (h : n.Faithful origin) (hn : n.Sound) (hi : (n.frames i).state = .free)
    (hf : Served origin n.addr f) : (n.take i f).Faithful origin :=
  (h.setFrame hn hf (fun howed => absurd hi howed.1)).congr rfl rfl rfl rfl rfl

theorem Faithful.advance (h : n.Faithful origin) (hn : n.Sound) (hi : (n.frames i).state ≠ .free)
    (hconfirm : f.confirm = (n.frames i).confirm) (hheader : f.header = (n.frames i).header)
    (hf : f.state ≠ .txConfirm) : (n.setFrame i f).Faithful origin := by
  apply h.setFrame hn ((h.frame i).advance hi hconfirm hheader hf)
  intro _
  rw [hheader]

theorem Faithful.setFrame_unowed (h : n.Faithful origin) (hn : n.Sound)
    (hi : (n.frames i).confirm = false) (hf : f.confirm = false) :
    (n.setFrame i f).Faithful origin := by
  apply h.setFrame hn (Served.of_unowed hf)
  intro howed
  exact absurd (hi.symm.trans howed.2) Bool.false_ne_true

theorem Faithful.sweep (h : n.Faithful origin) (rewrite : NwkFrame → NwkFrame)
    (hheader : ∀ i, (rewrite (n.frames i)).header = (n.frames i).header)
    (hserved : ∀ i, Served origin n.addr (rewrite (n.frames i))) :
    Faithful origin { n with frames := fun i => rewrite (n.frames i) } where
  service := h.service
  frame := hserved
  wait r hr hwait := by
    rcases h.wait r hr hwait with ⟨j, g, hj, hg, hnwk⟩
    refine ⟨j, g, hj, hg, ?_⟩
    dsimp only
    rw [hheader]
    exact hnwk
  confirm := h.confirm
  record := h.record

theorem Faithful.ackWait (h : n.Faithful origin) : n.txAckWaitTimerHandler.Faithful origin := by
  rw [txAckWaitTimerHandler_eq]
  refine (h.sweep ackTicked ?_ ?_).congr rfl rfl rfl rfl rfl
  · intro i
    rw [ackTicked]
    split
    case isTrue => split <;> rfl
    case isFalse => rfl
  · intro i howed
    have hserved := h.frame i
    rw [ackTicked] at howed ⊢
    split
    case isTrue hi =>
      rw [if_pos hi] at howed
      split
      case isTrue htimeout =>
        rw [if_pos htimeout] at howed
        refine ⟨(hserved ⟨by simp [hi], howed.2⟩).1, ?_⟩
        exact fun _ hstatus => by cases hstatus
      case isFalse htimeout =>
        rw [if_neg htimeout] at howed
        refine ⟨(hserved ⟨by simp [hi], howed.2⟩).1, ?_⟩
        exact fun hstate => absurd (hi.symm.trans hstate) (by simp)
    case isFalse hi =>
      rw [if_neg hi] at howed
      exact hserved howed

theorem Faithful.delayWait (h : n.Faithful origin) : n.txDelayTimerHandler.Faithful origin := by
  rw [txDelayTimerHandler_eq]
  refine (h.sweep delayTicked ?_ ?_).congr rfl rfl rfl rfl rfl
  · intro i
    rw [delayTicked]
    split <;> rfl
  · intro i
    rw [delayTicked]
    split
    case isTrue hi =>
      refine (h.frame i).advance (by simp [hi]) ?_ ?_ ?_
      · rfl
      · rfl
      · dsimp only
        split <;> simp
    case isFalse => exact h.frame i

theorem Faithful.txConf (h : n.Faithful origin) (hn : n.Sound)
    (hi : (n.frames i).state = .txConfirm) (hconfirm : (n.frames i).confirm = true) :
    (n.dataReqTxConf i).Faithful origin := by
  have howed : (n.frames i).Owed := ⟨by simp [hi], hconfirm⟩
  rcases hn.owned.confirmFirst howed (n.frames i) with
    ⟨before, req, after, hqueue, hwait, hreq, hconfirmed⟩
  have hframes : (n.dataReqTxConf i).frames =
      (n.setFrame i { n.frames i with state := .free }).frames := rfl
  have hheader (j : FrameSlot) :
      ((n.dataReqTxConf i).frames j).header = (n.frames j).header := by
    rw [hframes]
    by_cases hji : j = i
    · subst hji
      rw [setFrame_self]
    · rw [setFrame_of_ne hji]
  have hqueue' : (n.dataReqTxConf i).dataReqQueue = before ++ { req with
      status := (n.frames i).status, control := (n.frames i).control, state := .confirm } ::
        after := hconfirmed
  have hold {r : DataReq} (hr : r ∈ before ++ after) : r ∈ n.dataReqQueue := by
    rw [hqueue]
    exact mem_middle.mpr (.inr hr)
  have hmem : req ∈ n.dataReqQueue := by
    rw [hqueue]
    exact mem_middle.mpr (.inl rfl)
  constructor
  case service => exact h.service
  case frame =>
    intro j
    rw [hframes]
    by_cases hji : j = i
    · subst hji
      rw [setFrame_self]
      exact fun hfree => absurd rfl hfree.1
    · rw [setFrame_of_ne hji]
      exact h.frame j
  case wait =>
    intro r hr hrwait
    rw [hqueue'] at hr
    rcases mem_middle.mp hr with rfl | hr
    · cases hrwait
    · rcases h.wait r (hold hr) hrwait with ⟨j, g, hj, hg, hnwk⟩
      refine ⟨j, g, hj, hg, ?_⟩
      rw [hheader]
      exact hnwk
  case confirm =>
    intro r hr hstate hstatus
    rw [hqueue'] at hr
    rcases mem_middle.mp hr with rfl | hr
    · rcases h.wait req hmem hwait with ⟨j, g, hj, hg, hnwk⟩
      rcases Option.some.inj (hreq.symm.trans hj) with rfl
      refine ⟨g, hg, ?_⟩
      rw [← nwk_congr NwkFrameHeader.ackRequest hnwk fun _ => rfl,
        ← nwk_congr NwkFrameHeader.nwkSeq hnwk fun _ => rfl]
      exact (h.frame i howed).2 hi hstatus
    · exact h.confirm r (hold hr) hstate hstatus
  case record => exact h.record

theorem Faithful.launch (h : n.Faithful origin) (hn : n.Sound) {before after : List DataReq}
    {req : DataReq} (hi : (n.frames i).state = .free)
    (hqueue : n.dataReqQueue = before ++ req :: after)
    (hf : Prepared n.panId (n.dataReqFrame req.params) f) :
    Faithful origin { ((n.take i f).fill req.params.data.length).originate
        (.launched req.number req.params (n.dataReqFrame req.params)) with
      dataReqQueue := before ++ { req with frame := some i, state := .waitConf } :: after } := by
  have hold {r : DataReq} (hr : r ∈ before ++ after) : r ∈ n.dataReqQueue := by
    rw [hqueue]
    exact mem_middle.mpr (.inr hr)
  have hserved : Served origin n.addr f := by
    intro howed
    refine ⟨nwk_congr NwkFrameHeader.nwkSrcAddr hf.nwk fun _ => rfl, ?_⟩
    intro hstate
    rcases hf.state_cases with hs | hs <;> rw [hs] at hstate <;> cases hstate
  have hrecord := (h.take hn hi hserved).recorded
    (r := .launched req.number req.params (n.dataReqFrame req.params)) rfl
  constructor
  case service => exact h.service
  case frame => exact hrecord.frame
  case wait =>
    intro r hr hrwait
    rcases mem_middle.mp hr with rfl | hr
    · refine ⟨i, n.dataReqFrame req.params, rfl, List.mem_cons_self, ?_⟩
      rw [← hf.nwk]
      exact congrArg (fun g => g.header.nwk) (setFrame_self i f)
    · exact hrecord.wait r (hold hr) hrwait
  case confirm =>
    intro r hr hstate hstatus
    rcases mem_middle.mp hr with rfl | hr
    · cases hstate
    · exact hrecord.confirm r (hold hr) hstate hstatus
  case record => exact hrecord.record

theorem Faithful.refuse (h : n.Faithful origin) {before after : List DataReq} {req : DataReq}
    (hqueue : n.dataReqQueue = before ++ req :: after) :
    Faithful origin { n with dataReqQueue :=
      before ++ { req with state := .confirm, status := .outOfMemory } :: after } := by
  have hold {r : DataReq} (hr : r ∈ before ++ after) : r ∈ n.dataReqQueue := by
    rw [hqueue]
    exact mem_middle.mpr (.inr hr)
  constructor
  case service => exact h.service
  case frame => exact h.frame
  case wait =>
    intro r hr hwait
    rcases mem_middle.mp hr with rfl | hr
    · cases hwait
    · exact h.wait r (hold hr) hwait
  case confirm =>
    intro r hr hstate hstatus
    rcases mem_middle.mp hr with rfl | hr
    · cases hstatus
    · exact h.confirm r (hold hr) hstate hstatus
  case record => exact h.record

theorem Faithful.confirmed (h : n.Faithful origin) {before after : List DataReq} {req : DataReq}
    (hqueue : n.dataReqQueue = before ++ req :: after) (hreq : req.state = .confirm) :
    Faithful origin { n with
      dataReqQueue := before ++ after
      lock := n.lock - 1
      history := .confirmed req.number req.status req.control :: n.history } := by
  have hold {r : DataReq} (hr : r ∈ before ++ after) : r ∈ n.dataReqQueue := by
    rw [hqueue]
    exact mem_middle.mpr (.inr hr)
  have hmem : req ∈ n.dataReqQueue := by
    rw [hqueue]
    exact mem_middle.mpr (.inl rfl)
  have hsub := List.subset_cons_self (.confirmed req.number req.status req.control) n.history
  constructor
  case service => exact h.service
  case frame => exact h.frame
  case wait =>
    intro r hr hwait
    rcases h.wait r (hold hr) hwait with ⟨i, g, hi, hg, hnwk⟩
    exact ⟨i, g, hi, hsub hg, hnwk⟩
  case confirm =>
    exact fun r hr hstate hstatus => (h.confirm r (hold hr) hstate hstatus).mono hsub
  case record =>
    intro number control hnumber
    rcases List.mem_cons.mp hnumber with heq | hnumber
    · rcases Record.confirmed.inj heq with ⟨rfl, hstatus, _⟩
      exact ⟨req.params, (h.confirm req hmem hreq hstatus.symm).mono hsub⟩
    · rcases h.record number control hnumber with ⟨params, hanswered⟩
      exact ⟨params, hanswered.mono hsub⟩

theorem Move.faithful (hmove : Move p (network origin c asks) n m) (hn : n.Sound)
    (honest : n.Honest origin c asks p) (h : n.Faithful origin) : m.Faithful origin := by
  have hunowed {j : FrameSlot} {s : FrameState} (hj : (n.frames j).state = s)
      (hs : s.plain = true) (hout : s.outgoing = false) : (n.frames j).confirm = false := by
    rw [← hj] at hs hout
    exact hn.confirm_false hs hout
  cases hmove with
  | keep => exact h.congr rfl rfl rfl rfl rfl
  | indicate => exact h.recorded rfl
  | post params hparams =>
    constructor
    case service => exact h.service
    case frame => exact h.frame
    case wait =>
      intro r hr hwait
      rcases List.mem_cons.mp hr with rfl | hr
      · cases hwait
      · exact h.wait r hr hwait
    case confirm =>
      intro r hr hstate hstatus
      rcases List.mem_cons.mp hr with rfl | hr
      · cases hstate
      · exact h.confirm r hr hstate hstatus
    case record => exact h.record
  | receive i ind hi hind hair =>
    have htake := h.take (f := ind.frame) hn hi (Served.of_unowed rfl)
    exact htake.congr rfl rfl rfl rfl rfl
  | pass j state hj hstate =>
    have hconfirm := hunowed hj rfl rfl
    exact h.setFrame_unowed hn hconfirm hconfirm
  | relay i j state f hi hj hstate hpan hf =>
    have htake := h.take hn hi (Served.of_unowed hf.confirm)
    have hsound := hn.take hi (fit_sending (.inl hf.state) _ _) hf.confirm
    have hframe := take_frames_ne (n := n) (f := f) (slot_ne hi hj (by simp))
    have hconfirm : ((n.take i f).frames j).confirm = false := by
      rw [hframe]
      exact hunowed hj rfl rfl
    exact htake.setFrame_unowed hsound hconfirm hconfirm
  | finish j hj =>
    have hconfirm := hunowed hj rfl rfl
    exact h.setFrame_unowed hn hconfirm hconfirm
  | acknowledge i j control f hi hj hcause hf =>
    have htake := h.take hn hi (Served.of_unowed hf.confirm)
    have hsound := hn.take hi (fit_sending hf.state_cases _ _) hf.confirm
    have hframe := take_frames_ne (n := n) (f := f) (slot_ne hi hj (by simp))
    have hconfirm : ((n.take i f).frames j).confirm = false := by
      rw [hframe]
      exact hunowed hj rfl rfl
    have hset := htake.setFrame_unowed
      (f := { (n.take i f).frames j with state := .rxFinish }) hsound hconfirm hconfirm
    exact (hset.recorded rfl).congr rfl rfl rfl rfl rfl
  | hear i j hi hj hservice hdata control =>
    rcases hdata with ⟨control', hpayload⟩
    have hheard : Heard origin n.addr (n.frames i).header.nwkSeq :=
      ⟨n.frames j, control', (honest.frame j).clear (by simp [hj]),
        (honest.frame j).mine (by simp [hj]), h.service _ hservice, hpayload⟩
    refine h.setFrame (f := { n.frames i with state := .txConfirm, control := control }) hn ?_
      (fun _ => rfl)
    intro howed
    exact ⟨(h.frame i ⟨by simp [hi], howed.2⟩).1, fun _ _ _ => hheard⟩
  | route j f hj hf => exact h.setFrame_unowed hn (hunowed hj rfl rfl) hf.confirm
  | report i j f hi hj hf =>
    have htake := h.take hn hi (Served.of_unowed hf.confirm)
    have hsound := hn.take hi (fit_sending hf.state_cases _ _) hf.confirm
    have hframe := take_frames_ne (n := n) (f := f) (slot_ne hi hj (by simp))
    have hconfirm : ((n.take i f).frames j).confirm = false := by
      rw [hframe]
      exact hunowed hj rfl rfl
    have hset := htake.setFrame_unowed
      (f := { (n.take i f).frames j with state := .free }) hsound hconfirm hconfirm
    exact (hset.recorded rfl).congr rfl rfl rfl rfl rfl
  | release j hj =>
    have hconfirm : (n.frames j).confirm = false := by
      rcases hj with hj | hj | ⟨_, hj⟩
      · exact hunowed hj rfl rfl
      · exact hunowed hj rfl rfl
      · exact hj
    exact (h.setFrame_unowed (f := { n.frames j with state := .free }) hn hconfirm
      hconfirm).congr rfl rfl rfl rfl rfl
  | secure i encrypt hi =>
    have hused : (n.frames i).state ≠ .free := by
      rw [hi]
      cases encrypt <;> simp
    have hstate : (if encrypt then FrameState.securityEncryptPending
        else .securityDecryptPending) ≠ .txConfirm := by
      cases encrypt <;> simp
    exact (h.advance (f := { n.frames i with
      state := if encrypt then .securityEncryptPending else .securityDecryptPending })
      hn hused rfl rfl hstate).congr rfl rfl rfl rfl rfl
  | start i hactive hi =>
    have hused : (n.frames i).state ≠ .free := by
      rcases hi with hi | hi <;> simp [hi]
    have hset := h.advance (f := (Security.start (n.frames i)).2) hn hused rfl rfl
      (by simp [Security.start])
    exact hset.congr rfl rfl rfl rfl rfl
  | crypt i hactive hi =>
    have hset := h.advance (f := (n.security.encryptReq (p.aes n.key)
      { n.frames i with state := .securityWait }).2) hn (by simp [hi]) rfl rfl (by
        rw [Security.encryptReq]
        dsimp only
        split <;> simp)
    exact hset.congr rfl rfl rfl rfl rfl
  | secured i hactive hi =>
    have hheader : (n.security.processMic (n.frames i)).2.header = (n.frames i).header := by
      rw [Security.processMic]
      split <;> rfl
    have hconfirm : (n.security.processMic (n.frames i)).2.confirm = (n.frames i).confirm := by
      rw [Security.processMic]
      split <;> rfl
    have hset := h.advance (i := i) (f := { (n.security.processMic (n.frames i)).2 with
      state := if n.security.encrypt then .txDelay
        else if (n.security.processMic (n.frames i)).1 then .rxIndicate else .rxFinish })
      hn (by simp [hi]) hconfirm hheader (by
        dsimp only
        split
        case isTrue => simp
        case isFalse => split <;> simp)
    exact hset.congr rfl rfl rfl rfl rfl
  | delay i hi htimeout =>
    exact (h.advance (f := { n.frames i with state := .txWaitDelay }) hn (by simp [hi]) rfl rfl
      (by simp)).congr rfl rfl rfl rfl rfl
  | ready i hi =>
    exact h.advance (f := { n.frames i with state := .txSend }) hn (by simp [hi]) rfl rfl (by simp)
  | send i hi hactive =>
    have hset := h.advance (f := { n.frames i with state := .txWaitConf }) hn (by simp [hi]) rfl rfl
      (by simp)
    exact (hset.recorded (r := .sent (n.frames i).data) rfl).congr rfl rfl rfl rfl rfl
  | phyConf i status hactive =>
    have hi := (hn.frame i).phy.mp hactive
    exact (h.advance (f := { n.frames i with
      state := .txSent, status := txConvertPhyStatus status }) hn (by simp [hi]) rfl rfl
      (by simp)).congr rfl rfl rfl rfl rfl
  | wait i hi hstatus hsrc hack =>
    exact (h.advance (f := { n.frames i with state := .txWaitAck, timeout := ackWaitTimeout }) hn
      (by simp [hi]) rfl rfl (by simp)).congr rfl rfl rfl rfl rfl
  | done i hi hend =>
    refine h.setFrame (f := { n.frames i with state := .txConfirm }) hn ?_ (fun _ => rfl)
    intro howed
    have hsrc := (h.frame i ⟨by simp [hi], howed.2⟩).1
    exact ⟨hsrc, fun _ hstatus hack => absurd ⟨hsrc, hack⟩ (hend hstatus)⟩
  | ackWait => exact h.ackWait
  | delayWait => exact h.delayWait
  | txConf i hi hconfirm => exact h.txConf hn hi hconfirm
  | launch i before req after f hi hqueue hbefore hreq hf => exact h.launch hn hi hqueue hf
  | refuse before req after hqueue hreq => exact h.refuse hqueue
  | confirm before req after hqueue hreq => exact h.confirmed hqueue hreq

/-! ### Sequence numbers -/

/-- While none of them has come twice, a sequence number tells the frames apart. -/
theorem nodup_sequence {count : ℕ} (h : count ≤ 256) : (sequence count).Nodup := by
  have hmem {k : ℕ} {seq : Byte} (hseq : seq ∈ sequence k) :
      ∃ j < k, seq = BitVec.ofNat 8 (j + 1) := by
    induction k with
    | zero => exact absurd hseq List.not_mem_nil
    | succ k ih =>
      rcases List.mem_cons.mp hseq with rfl | hseq
      · exact ⟨k, Nat.lt_succ_self k, rfl⟩
      · rcases ih hseq with ⟨j, hj, heq⟩
        exact ⟨j, by omega, heq⟩
  induction count with
  | zero => exact List.nodup_nil
  | succ count ih =>
    rw [sequence, List.nodup_cons]
    refine ⟨?_, ih (by omega)⟩
    intro hseq
    rcases hmem hseq with ⟨j, hj, heq⟩
    have hnat := congrArg BitVec.toNat heq
    rw [BitVec.toNat_ofNat, BitVec.toNat_ofNat] at hnat
    omega

theorem Numbered.congr (h : n.Numbered) (hseq : m.nwkSeqNum = n.nwkSeqNum)
    (horigins : m.origins = n.origins) : m.Numbered := by
  constructor
  case next =>
    rw [hseq, horigins]
    exact h.next
  case numbers =>
    rw [horigins]
    exact h.numbers

theorem Numbered.originate (h : n.Numbered) (hseq : m.nwkSeqNum = n.nwkSeqNum + 1)
    (horigins : m.origins = f :: n.origins) (hf : f.header.nwkSeq = n.nwkSeqNum + 1) :
    m.Numbered := by
  constructor
  case next =>
    rw [hseq, horigins, List.length_cons]
    exact ofNat_succ h.next
  case numbers =>
    rw [horigins, List.map_cons, h.numbers, hf, List.length_cons, sequence, ofNat_succ h.next]

theorem Move.numbered {e : Environment} (hmove : Move p e n m) (h : n.Numbered) :
    m.Numbered := by
  cases hmove with
  | acknowledge => exact h.originate rfl rfl rfl
  | report => exact h.originate rfl rfl rfl
  | launch => exact h.originate rfl rfl rfl
  | ackWait =>
    rw [txAckWaitTimerHandler_eq]
    exact h.congr rfl rfl
  | delayWait =>
    rw [txDelayTimerHandler_eq]
    exact h.congr rfl rfl
  | _ => exact h.congr rfl rfl

/-- Two frames of a node's own with one number are the same, among the first 256. -/
theorem Numbered.unique (h : n.Numbered) (hcount : n.origins.length ≤ 256) (hf : f ∈ n.origins)
    (hg : g ∈ n.origins) (hseq : f.header.nwkSeq = g.header.nwkSeq) : f = g := by
  have hnodup := nodup_sequence hcount
  rw [← h.numbers] at hnodup
  exact List.inj_on_of_nodup_map hnodup hf hg hseq

end Nwk

end Aquila.Lwm
