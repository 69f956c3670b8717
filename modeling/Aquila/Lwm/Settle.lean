import Aquila.Library.Rounds
import Aquila.Lwm.Overrun

/-! # A node that is left alone comes to rest

Once nothing arrives and nothing is asked for, each task handler and timer brings some buffer or
request closer to its end whenever there is something for it to do. A node therefore stops being
busy after finitely many rounds of them, and has confirmed all requests by then.
-/

namespace Aquila.Lwm
open Library Bridge Mesh

def quiet : Environment where
  received _ := False
  requested _ := False

/-- What is left to do with a frame: the steps that it can still take, with the ticks it waits
for, the blocks it has, and a frame that it may cause. -/
def NwkFrame.weight (s : Security) (f : NwkFrame) : ℕ :=
  match f.state with
  | .free => 0
  | .txConfirm => 1
  | .rxFinish => 1
  | .txWaitAck => 2 + f.timeout.toNat
  | .txSent => 6
  | .txWaitConf => 7
  | .txSend => 8
  | .txWaitDelay => 9 + f.timeout.toNat
  | .txDelay => 10 + f.timeout.toNat
  | .txEncrypt => 14 + f.timeout.toNat + f.payload.length
  | .securityEncryptPending => 13 + f.timeout.toNat + f.payload.length
  | .rxRoute => 19
  | .rxIndicate => 27
  | .rxDecrypt => 31 + f.timeout.toNat + f.payload.length
  | .securityDecryptPending => 30 + f.timeout.toNat + f.payload.length
  | .securityProcess => (if s.encrypt then 12 else 29) + f.timeout.toNat + s.size
  | .securityWait => 0
  | .securityConfirm => (if s.encrypt then 11 else 28) + f.timeout.toNat
  | .rxReceived => 50 + f.timeout.toNat + f.payload.length

def DataReq.weight (r : DataReq) : ℕ :=
  match r.state with
  | .initial => 25 + r.params.data.length
  | .waitConf => 2
  | .confirm => 1

theorem DataReq.weight_pos (r : DataReq) : 0 < r.weight := by
  rw [DataReq.weight]
  split <;> omega

namespace Nwk

def weight (n : Nwk) : ℕ :=
  total (NwkFrame.weight n.security) n.frames + (n.dataReqQueue.map DataReq.weight).sum

/-- Nothing that is waiting to be done has changed. -/
structure Still (n m : Nwk) : Prop where
  frames : m.frames = n.frames
  queue : m.dataReqQueue = n.dataReqQueue
  phy : m.txPhyActiveFrame = n.txPhyActiveFrame
  active : m.securityActiveFrame = n.securityActiveFrame
  security : m.security = n.security

variable {p : Platform} {n m : Nwk} {i j : FrameSlot} {f g : NwkFrame} {s : Security}

theorem Still.weight_eq (h : Still n m) : m.weight = n.weight := by
  rw [weight, weight, h.frames, h.queue, h.security]

theorem Still.trans {k : Nwk} (h : Still n m) (h' : Still m k) : Still n k where
  frames := h'.frames.trans h.frames
  queue := h'.queue.trans h.queue
  phy := h'.phy.trans h.phy
  active := h'.active.trans h.active
  security := h'.security.trans h.security

theorem Still.refl (n : Nwk) : Still n n := ⟨rfl, rfl, rfl, rfl, rfl⟩

theorem weight_update (hframes : m.frames = Function.update n.frames i f)
    (hqueue : m.dataReqQueue = n.dataReqQueue) (hsecurity : m.security = n.security) :
    m.weight + (n.frames i).weight n.security = n.weight + f.weight n.security := by
  have htotal := total_update (NwkFrame.weight n.security) n.frames i f
  rw [weight, weight, hframes, hqueue, hsecurity]
  omega

theorem weight_lt (hframes : m.frames = Function.update n.frames i f)
    (hqueue : m.dataReqQueue = n.dataReqQueue) (hsecurity : m.security = n.security)
    (hlt : f.weight n.security < (n.frames i).weight n.security) : m.weight < n.weight := by
  have hupdate := weight_update hframes hqueue hsecurity
  omega

theorem weight_lt_take (hij : j ≠ i)
    (hframes : m.frames = Function.update (Function.update n.frames i f) j g)
    (hqueue : m.dataReqQueue = n.dataReqQueue) (hsecurity : m.security = n.security)
    (hlt : f.weight n.security + g.weight n.security < (n.frames j).weight n.security) :
    m.weight < n.weight := by
  have hfirst := total_update (NwkFrame.weight n.security) n.frames i f
  have hsecond := total_update (NwkFrame.weight n.security) (Function.update n.frames i f) j g
  rw [Function.update_of_ne hij] at hsecond
  rw [weight, weight, hframes, hqueue, hsecurity]
  omega

/-- The security module goes on with its frame; no other frame depends on what it keeps. -/
theorem weight_lt_security (hn : n.Sound)
    (hother : ∀ j, j ≠ i → n.securityActiveFrame ≠ some j)
    (hframes : m.frames = Function.update n.frames i f)
    (hqueue : m.dataReqQueue = n.dataReqQueue)
    (hlt : f.weight m.security < (n.frames i).weight n.security) : m.weight < n.weight := by
  have hsame : total (NwkFrame.weight m.security) (Function.update n.frames i f) =
      total (fun x : Security × NwkFrame => x.2.weight x.1) (Function.update
        (fun j => (n.security, n.frames j)) i (m.security, f)) := by
    apply Finset.sum_congr rfl
    intro j _
    by_cases hji : j = i
    · subst hji
      simp only [Function.update_self]
    · simp only [Function.update_of_ne hji]
      have hactive := (not_congr (hn.frame j).active).mp (hother j hji)
      rw [not_or] at hactive
      rw [NwkFrame.weight, NwkFrame.weight]
      cases hstate : (n.frames j).state <;> simp_all
  have htotal := total_update (fun x : Security × NwkFrame => x.2.weight x.1)
    (fun j => (n.security, n.frames j)) i (m.security, f)
  have hstart : total (fun x : Security × NwkFrame => x.2.weight x.1)
      (fun j => (n.security, n.frames j)) = total (NwkFrame.weight n.security) n.frames := rfl
  rw [weight, weight, hframes, hqueue, hsame]
  dsimp only at htotal
  omega

/-! ### Weights of frames -/

theorem Prepared.weight_le {panId : Word} (h : Prepared panId g f) :
    f.weight s ≤ 22 + g.payload.length := by
  have htimeout := h.timeout
  rcases h.state_cases with hs | hs
  · simp only [NwkFrame.weight, hs]
    omega
  · simp only [NwkFrame.weight, hs, h.payload]
    omega

theorem Prepared.weight_le_clear {panId : Word} (h : Prepared panId g f)
    (hg : g.control &&& txControlRouting ≠ 0 ∨ g.header.security = false) : f.weight s ≤ 18 := by
  have htimeout := h.timeout
  have hs : f.state = .txDelay := by
    rw [h.state]
    rcases hg with hg | hg
    · rw [if_pos hg]
    · rw [hg]
      simp
  simp only [NwkFrame.weight, hs]
  omega

theorem Relayed.weight_le (h : Relayed g f) : f.weight s ≤ 18 := by
  have htimeout := h.timeout
  simp only [NwkFrame.weight, h.state]
  omega

theorem Passed.weight_le {state : FrameState} (h : n.Passed f state) :
    NwkFrame.weight s { f with state := state } ≤ 31 + f.timeout.toNat + f.payload.length := by
  rcases h.state_cases with rfl | rfl | rfl | rfl <;> simp only [NwkFrame.weight] <;> omega

theorem toNat_ticked {timeout : Word} (h : timeout ≠ 0) :
    0 < timeout.toNat ∧ (timeout - 1).toNat = timeout.toNat - 1 := by
  have hpos : 0 < timeout.toNat := by
    apply Nat.pos_of_ne_zero
    intro hzero
    exact h (BitVec.eq_of_toNat_eq hzero)
  refine ⟨hpos, ?_⟩
  rw [BitVec.toNat_sub_of_le]
  · rfl
  · rw [BitVec.le_def]
    exact hpos

theorem ackTicked_lt (hf : f.state = .txWaitAck) (htimeout : f.timeout ≠ 0) :
    (ackTicked f).weight s < f.weight s := by
  rcases toNat_ticked htimeout with ⟨hpos, hpred⟩
  rw [ackTicked, if_pos hf]
  split
  case isTrue => simp only [NwkFrame.weight, hf]; omega
  case isFalse => simp only [NwkFrame.weight, hf, hpred]; omega

theorem delayTicked_lt (hf : f.state = .txWaitDelay) (htimeout : f.timeout ≠ 0) :
    (delayTicked f).weight s < f.weight s := by
  rcases toNat_ticked htimeout with ⟨hpos, hpred⟩
  rw [delayTicked, if_pos hf]
  split
  case isTrue => simp only [NwkFrame.weight, hf]; omega
  case isFalse => simp only [NwkFrame.weight, hf, hpred]; omega

/-! ### Every move brings something closer to its end -/

theorem weight_lt_sweep (rewrite : NwkFrame → NwkFrame) {kind : FrameState}
    (hframes : m.frames = fun i => rewrite (n.frames i))
    (hqueue : m.dataReqQueue = n.dataReqQueue) (hsecurity : m.security = n.security)
    (hother : ∀ f : NwkFrame, f.state ≠ kind → rewrite f = f)
    (hlt : ∀ i, (n.frames i).state = kind →
      (rewrite (n.frames i)).weight n.security < (n.frames i).weight n.security)
    (hi : (n.frames i).state = kind) : m.weight < n.weight := by
  have htotal : total (NwkFrame.weight n.security) (fun i => rewrite (n.frames i)) <
      total (NwkFrame.weight n.security) n.frames := by
    refine total_lt (fun j => ?_) (hlt i hi)
    by_cases hj : (n.frames j).state = kind
    · exact Nat.le_of_lt (hlt j hj)
    · rw [hother _ hj]
  rw [weight, weight, hframes, hqueue, hsecurity]
  omega

theorem ackWait_lt (hn : n.Sound) (hi : (n.frames i).state = .txWaitAck) :
    n.txAckWaitTimerHandler.weight < n.weight := by
  rw [txAckWaitTimerHandler_eq]
  refine weight_lt_sweep ackTicked rfl rfl rfl (fun f hf => if_neg hf) ?_ hi
  exact fun j hj => ackTicked_lt hj ((hn.frame j).ack hj).2

theorem delayWait_lt (hn : n.Sound) (hi : (n.frames i).state = .txWaitDelay) :
    n.txDelayTimerHandler.weight < n.weight := by
  rw [txDelayTimerHandler_eq]
  refine weight_lt_sweep delayTicked rfl rfl rfl (fun f hf => if_neg hf) ?_ hi
  exact fun j hj => delayTicked_lt hj ((hn.frame j).delay hj).2

theorem ackWait_still (h : ∀ i, (n.frames i).state ≠ .txWaitAck) :
    Still n n.txAckWaitTimerHandler := by
  rw [txAckWaitTimerHandler_eq]
  exact ⟨funext fun i => if_neg (h i), rfl, rfl, rfl, rfl⟩

theorem delayWait_still (h : ∀ i, (n.frames i).state ≠ .txWaitDelay) :
    Still n n.txDelayTimerHandler := by
  rw [txDelayTimerHandler_eq]
  exact ⟨funext fun i => if_neg (h i), rfl, rfl, rfl, rfl⟩

theorem start_lt (hn : n.Sound) (hroom : Roomy (n.frames i))
    (hactive : n.securityActiveFrame = none)
    (hi : (n.frames i).state = .securityEncryptPending ∨
      (n.frames i).state = .securityDecryptPending) : (n.securityStart i).weight < n.weight := by
  have hnone (j : FrameSlot) (_ : j ≠ i) : n.securityActiveFrame ≠ some j := by
    rw [hactive]
    exact (Option.some_ne_none j).symm
  apply weight_lt_security (m := n.securityStart i) hn hnone rfl rfl
  change NwkFrame.weight (Security.start (n.frames i)).1 (Security.start (n.frames i)).2 < _
  rcases hi with hi | hi
  · simp only [NwkFrame.weight, Security.start, hi, beq_self_eq_true, if_true]
    omega
  · have hdirection : (FrameState.securityDecryptPending == .securityEncryptPending) = false := rfl
    have hlong : ¬ (n.frames i).payload.length < nwkSecurityMicSize := Nat.not_lt.mpr (hroom.mic hi)
    simp only [NwkFrame.weight, Security.start, hi, hdirection, hlong, Bool.false_eq_true, if_false]
    omega

theorem active_ne (hactive : n.securityActiveFrame = some i) (hji : j ≠ i) :
    n.securityActiveFrame ≠ some j := by
  rw [hactive]
  exact fun hsome => hji (Option.some.inj hsome).symm

theorem crypt_lt (hn : n.Sound) (hactive : n.securityActiveFrame = some i)
    (hi : (n.frames i).state = .securityProcess) : (n.securityCrypt p i).weight < n.weight := by
  apply weight_lt_security (m := n.securityCrypt p i) hn (fun j => active_ne hactive) rfl rfl
  change NwkFrame.weight (n.security.encryptReq (p.aes n.key) _).1
    (n.security.encryptReq (p.aes n.key) _).2 < _
  have hencrypt := Bool.eq_false_or_eq_true n.security.encrypt
  by_cases hmore : 0 < n.security.size - min n.security.size 16
  · rcases hencrypt with hencrypt | hencrypt <;>
      simp only [NwkFrame.weight, Security.encryptReq, hi, hmore, hencrypt, if_true,
        Bool.false_eq_true, if_false] <;> omega
  · rcases hencrypt with hencrypt | hencrypt <;>
      simp only [NwkFrame.weight, Security.encryptReq, hi, hmore, hencrypt, if_true,
        Bool.false_eq_true, if_false] <;> omega

theorem secured_lt (hn : n.Sound) (hactive : n.securityActiveFrame = some i)
    (hi : (n.frames i).state = .securityConfirm) : (n.securityConf i).weight < n.weight := by
  have htimeout : (n.security.processMic (n.frames i)).2.timeout = (n.frames i).timeout := by
    rw [Security.processMic]
    split <;> rfl
  apply weight_lt_security (m := n.securityConf i) hn (fun j => active_ne hactive) rfl rfl
  change NwkFrame.weight n.security { (n.security.processMic (n.frames i)).2 with
    state := if n.security.encrypt then .txDelay
      else if (n.security.processMic (n.frames i)).1 then .rxIndicate else .rxFinish } < _
  cases hencrypt : n.security.encrypt
  · cases (n.security.processMic (n.frames i)).1
    · simp only [NwkFrame.weight, hi, hencrypt, Bool.false_eq_true, if_false]
      omega
    · simp only [NwkFrame.weight, hi, hencrypt, Bool.false_eq_true, if_false, if_true]
      omega
  · simp [NwkFrame.weight, hi, hencrypt, htimeout]

theorem weight_lt_replace {before after : List DataReq} {r r' : DataReq}
    (hqueue : n.dataReqQueue = before ++ r :: after)
    (hqueue' : m.dataReqQueue = before ++ r' :: after)
    (hlt : total (NwkFrame.weight m.security) m.frames + r'.weight <
      total (NwkFrame.weight n.security) n.frames + r.weight) : m.weight < n.weight := by
  rw [weight, weight, hqueue, hqueue']
  simp only [List.map_append, List.map_cons, List.sum_append, List.sum_cons]
  omega

theorem txConf_lt (hn : n.Sound) (hi : (n.frames i).state = .txConfirm)
    (hconfirm : (n.frames i).confirm = true) : (n.dataReqTxConf i).weight < n.weight := by
  have howed : (n.frames i).Owed := ⟨by simp [hi], hconfirm⟩
  rcases hn.owned.confirmFirst howed (n.frames i) with
    ⟨before, req, after, hqueue, hwait, _, hconfirmed⟩
  apply weight_lt_replace (m := n.dataReqTxConf i) hqueue hconfirmed
  have htotal := total_update (NwkFrame.weight n.security) n.frames i
    { n.frames i with state := .free }
  change total (NwkFrame.weight n.security)
    (Function.update n.frames i { n.frames i with state := .free }) + _ < _
  simp only [NwkFrame.weight, DataReq.weight, hi, hwait] at htotal ⊢
  omega

theorem launch_lt {before after : List DataReq} {req : DataReq}
    (hi : (n.frames i).state = .free) (hqueue : n.dataReqQueue = before ++ req :: after)
    (hreq : req.state = .initial) (hf : Prepared n.panId (n.dataReqFrame req.params) f) :
    weight { ((n.take i f).fill req.params.data.length).originate
        (.launched req.number req.params (n.dataReqFrame req.params)) with
      dataReqQueue := before ++ { req with frame := some i, state := .waitConf } :: after } <
        n.weight := by
  apply weight_lt_replace hqueue rfl
  have htotal := total_update (NwkFrame.weight n.security) n.frames i f
  have hweight := hf.weight_le (s := n.security)
  have hlength : (n.dataReqFrame req.params).payload.length = req.params.data.length := rfl
  change total (NwkFrame.weight n.security) (Function.update n.frames i f) + _ < _
  simp only [NwkFrame.weight, DataReq.weight, hi, hreq] at htotal hweight ⊢
  omega

theorem refuse_lt {before after : List DataReq} {req : DataReq}
    (hqueue : n.dataReqQueue = before ++ req :: after) (hreq : req.state = .initial) :
    weight { n with dataReqQueue :=
      before ++ { req with state := .confirm, status := .outOfMemory } :: after } < n.weight := by
  apply weight_lt_replace hqueue rfl
  simp only [DataReq.weight, hreq]
  omega

theorem confirm_lt {before after : List DataReq} {req : DataReq}
    (hqueue : n.dataReqQueue = before ++ req :: after) (hreq : req.state = .confirm) :
    weight { n with
      dataReqQueue := before ++ after
      lock := n.lock - 1
      history := .confirmed req.number req.status req.control :: n.history } < n.weight := by
  rw [weight, weight, hqueue]
  simp only [List.map_append, List.map_cons, List.sum_append, List.sum_cons, DataReq.weight, hreq]
  omega

theorem Move.settle (hmove : Move p quiet n m) (hn : n.Sound) (hinside : n.Inside) :
    m.weight < n.weight ∨ Still n m := by
  cases hmove with
  | keep => exact .inr ⟨rfl, rfl, rfl, rfl, rfl⟩
  | indicate => exact .inr ⟨rfl, rfl, rfl, rfl, rfl⟩
  | post params hparams => exact hparams.elim
  | receive i ind hi hind hair => exact hair.elim
  | pass j state hj hstate =>
    left
    refine weight_lt (f := { n.frames j with state := state }) rfl rfl rfl ?_
    have hweight := hstate.weight_le (s := n.security)
    simp only [NwkFrame.weight, hj] at hweight ⊢
    omega
  | relay i j state f hi hj hstate hpan hf =>
    left
    have hij := slot_ne hi hj (by simp)
    have hframe := take_frames_ne (n := n) (f := f) hij
    have hweight := hstate.weight_le (s := n.security)
    have hrelayed := hf.weight_le (s := n.security)
    refine weight_lt_take (f := f) (g := { (n.take i f).frames j with state := state }) hij rfl rfl
      rfl ?_
    rw [hframe]
    simp only [NwkFrame.weight, hj] at hweight hrelayed ⊢
    omega
  | finish j hj =>
    left
    refine weight_lt (f := { n.frames j with state := .rxFinish }) rfl rfl rfl ?_
    simp [NwkFrame.weight, hj]
  | acknowledge i j control f hi hj hcause hf =>
    left
    have hij := slot_ne hi hj (by simp)
    have hframe := take_frames_ne (n := n) (f := f) hij
    have hweight := hf.weight_le (s := n.security)
    have hlength : (n.ackFrame (n.frames j) control).payload.length = 3 := rfl
    refine weight_lt_take (f := f) (g := { (n.take i f).frames j with state := .rxFinish }) hij rfl
      rfl rfl ?_
    simp only [NwkFrame.weight, hj] at hweight ⊢
    omega
  | hear i j hi hj hservice hdata control =>
    left
    refine weight_lt (f := { n.frames i with state := .txConfirm, control := control }) rfl rfl
      rfl ?_
    simp only [NwkFrame.weight, hi]
    omega
  | route j f hj hf =>
    left
    have hrouting : txControlRouting &&& txControlRouting ≠ 0 := by decide
    have hweight := hf.weight_le_clear (s := n.security) (.inl hrouting)
    refine weight_lt (f := f) rfl rfl rfl ?_
    simp only [NwkFrame.weight, hj] at hweight ⊢
    omega
  | report i j f hi hj hf =>
    left
    have hij := slot_ne hi hj (by simp)
    have hweight := hf.weight_le_clear (s := n.security) (.inr rfl)
    refine weight_lt_take (f := f) (g := { (n.take i f).frames j with state := .free }) hij rfl rfl
      rfl ?_
    simp only [NwkFrame.weight, hj] at hweight ⊢
    omega
  | release j hj =>
    left
    refine weight_lt (f := { n.frames j with state := .free }) rfl rfl rfl ?_
    rcases hj with hj | hj | ⟨hj, _⟩ <;> simp [NwkFrame.weight, hj]
  | secure i encrypt hi =>
    left
    refine weight_lt (f := { n.frames i with
      state := if encrypt then .securityEncryptPending else .securityDecryptPending }) rfl rfl
      rfl ?_
    cases encrypt with
    | true =>
      have hi : (n.frames i).state = .txEncrypt := hi
      simp only [NwkFrame.weight, hi, if_true]
      omega
    | false =>
      have hi : (n.frames i).state = .rxDecrypt := hi
      simp only [NwkFrame.weight, hi, Bool.false_eq_true, if_false]
      omega
  | start i hactive hi => exact .inl (start_lt hn (hinside.frame i) hactive hi)
  | crypt i hactive hi => exact .inl (crypt_lt hn hactive hi)
  | secured i hactive hi => exact .inl (secured_lt hn hactive hi)
  | delay i hi htimeout =>
    left
    refine weight_lt (f := { n.frames i with state := .txWaitDelay }) rfl rfl rfl ?_
    simp only [NwkFrame.weight, hi]
    omega
  | ready i hi =>
    left
    refine weight_lt (f := { n.frames i with state := .txSend }) rfl rfl rfl ?_
    simp only [NwkFrame.weight, hi]
    omega
  | send i hi hactive =>
    left
    refine weight_lt (f := { n.frames i with state := .txWaitConf }) rfl rfl rfl ?_
    simp [NwkFrame.weight, hi]
  | phyConf i status hactive =>
    left
    have hi := (hn.frame i).phy.mp hactive
    refine weight_lt (f := { n.frames i with
      state := .txSent, status := txConvertPhyStatus status }) rfl rfl rfl ?_
    simp [NwkFrame.weight, hi]
  | wait i hi hstatus hsrc hack =>
    left
    refine weight_lt (f := { n.frames i with state := .txWaitAck, timeout := ackWaitTimeout }) rfl
      rfl rfl ?_
    have htimeout : ackWaitTimeout.toNat = 3 := rfl
    simp only [NwkFrame.weight, hi, htimeout]
    omega
  | done i hi hend =>
    left
    refine weight_lt (f := { n.frames i with state := .txConfirm }) rfl rfl rfl ?_
    simp [NwkFrame.weight, hi]
  | ackWait =>
    by_cases hwait : ∃ i, (n.frames i).state = .txWaitAck
    · rcases hwait with ⟨i, hi⟩
      exact .inl (ackWait_lt hn hi)
    · exact .inr (ackWait_still (not_exists.mp hwait))
  | delayWait =>
    by_cases hwait : ∃ i, (n.frames i).state = .txWaitDelay
    · rcases hwait with ⟨i, hi⟩
      exact .inl (delayWait_lt hn hi)
    · exact .inr (delayWait_still (not_exists.mp hwait))
  | txConf i hi hconfirm => exact .inl (txConf_lt hn hi hconfirm)
  | launch i before req after f hi hqueue hbefore hreq hf =>
    exact .inl (launch_lt hi hqueue hreq hf)
  | refuse before req after hqueue hreq => exact .inl (refuse_lt hqueue hreq)
  | confirm before req after hqueue hreq => exact .inl (confirm_lt hqueue hreq)

theorem quiet_fits : quiet.Fits := ⟨fun _ => False.elim, fun _ => False.elim⟩

theorem Moves.settle (hmoves : Moves p quiet n m) (hn : n.Sound) (hinside : n.Inside) :
    m.weight < n.weight ∨ Still n m := by
  induction hmoves with
  | refl => exact .inr (Still.refl n)
  | tail hmoves hmove ih =>
    have hkept := Moves.inside quiet_fits hmoves hn hinside
    rcases hmove.settle (Moves.sound hmoves hn) hkept with hlt | hstill
    · left
      rcases ih with hlt' | hstill'
      · exact Nat.lt_trans hlt hlt'
      · rw [← hstill'.weight_eq]
        exact hlt
    · rcases ih with hlt' | hstill'
      · left
        rw [hstill.weight_eq]
        exact hlt'
      · exact .inr (hstill'.trans hstill)

/-- The state of some buffer has changed, so that something has been done. -/
theorem Moves.settle_lt (hmoves : Moves p quiet n m) (hn : n.Sound) (hinside : n.Inside)
    (hne : (m.frames i).state ≠ (n.frames i).state) : m.weight < n.weight := by
  rcases hmoves.settle hn hinside with hlt | hstill
  · exact hlt
  · rw [hstill.frames] at hne
    exact absurd rfl hne

/-! ### The task handlers -/

/-- What `nwkRxTaskHandler` has to do with a frame. -/
def RxDue (f : NwkFrame) : Prop :=
  f.state = .rxReceived ∨ f.state = .rxDecrypt ∨ f.state = .rxIndicate ∨ f.state = .rxRoute ∨
    f.state = .rxFinish

/-- What `nwkTxTaskHandler` has to do with a frame. -/
def TxDue (phy : Option FrameSlot) (f : NwkFrame) : Prop :=
  f.state = .txEncrypt ∨ f.state = .txDelay ∨ f.state = .txSend ∧ phy = none ∨
    f.state = .txSent ∨ f.state = .txConfirm

@[simp] theorem setState_self (i : FrameSlot) (state : FrameState) :
    ((n.setState i state).frames i).state = state :=
  congrArg NwkFrame.state (setFrame_self i _)

theorem txFrame_state (i : FrameSlot) (n : Nwk) :
    ((n.txFrame p i).frames i).state = .txDelay ∨
      ((n.txFrame p i).frames i).state = .txEncrypt := by
  rcases txFrame_eq p i n with ⟨f, macSeqNum, draws, hf, heq⟩
  have hframe : (n.txFrame p i).frames i = f := by
    rw [heq]
    exact setFrame_self i f
  rw [hframe]
  exact hf.state_cases

theorem rxHandle_ne {answers : FrameSlot → Answer} (hdue : RxDue (n.frames i)) :
    ((rxHandle p answers n i).frames i).state ≠ (n.frames i).state := by
  rcases hdue with hi | hi | hi | hi | hi
  · rw [rxHandle, hi]
    dsimp only
    have hset (k : Nwk) (state : FrameState) (hne : state ≠ .rxReceived) :
        ((k.setState i state).frames i).state ≠ .rxReceived := by
      rwa [setState_self]
    have haccept : rxAccept (n.frames i).header ≠ .rxReceived := by
      rw [rxAccept]
      split <;> simp
    rw [rxHandleReceivedFrame]
    dsimp only
    repeat' split
    all_goals first | exact hset _ _ haccept | exact hset _ _ (by simp)
  · rw [rxHandle, hi]
    change ((n.setState i .securityDecryptPending).frames i).state ≠ _
    simp
  · rw [rxHandle, hi]
    change ((setState _ i .rxFinish).frames i).state ≠ _
    simp
  · rw [rxHandle, hi]
    dsimp only
    rw [routeFrame]
    split
    case isTrue =>
      rcases txFrame_state (p := p) i (n.setFrame i { n.frames i with
        confirm := false, control := txControlRouting }) with hs | hs <;> rw [hs] <;> simp
    case isFalse =>
      change ((setState _ i .free).frames i).state ≠ _
      simp
  · rw [rxHandle, hi]
    change ((n.setState i .free).frames i).state ≠ _
    simp

theorem txHandle_ne (hdue : TxDue n.txPhyActiveFrame (n.frames i)) :
    ((n.txHandle i).frames i).state ≠ (n.frames i).state := by
  rcases hdue with hi | hi | ⟨hi, hphy⟩ | hi | hi
  · rw [txHandle, hi]
    change ((n.setState i .securityEncryptPending).frames i).state ≠ _
    simp
  · rw [txHandle, hi]
    dsimp only
    split
    case isTrue =>
      change ((n.setState i .txWaitDelay).frames i).state ≠ _
      simp
    case isFalse => simp
  · rw [txHandle, hi, hphy]
    change ((n.setState i .txWaitConf).frames i).state ≠ _
    simp
  · rw [txHandle, hi]
    dsimp only
    split
    case isTrue =>
      split
      case isTrue =>
        change ((n.setFrame i { n.frames i with
          state := .txWaitAck, timeout := ackWaitTimeout }).frames i).state ≠ _
        simp
      case isFalse => simp
    case isFalse => simp
  · rw [txHandle, hi]
    dsimp only
    split
    case isTrue =>
      change ((setState _ i .free).frames i).state ≠ _
      simp
    case isFalse =>
      change ((setState _ i .free).frames i).state ≠ _
      simp

/-- A handler of all buffers has something to do, if it has for one of them. -/
theorem foldl_lt {handle : Nwk → FrameSlot → Nwk} (due : Nwk → FrameSlot → Prop)
    (hmoves : ∀ n i, Moves p quiet n (handle n i))
    (hdue : ∀ n i, due n i → ((handle n i).frames i).state ≠ (n.frames i).state)
    (hstill : ∀ n m i, Still n m → due n i → due m i) (hn : n.Sound) (hinside : n.Inside)
    (hi : due n i) : ((List.finRange 5).foldl handle n).weight < n.weight := by
  have hsettling : Settling handle (fun n => n.Sound ∧ n.Inside) (fun _ => True) Eq
      (fun i n => due n i) weight := by
    constructor
    case keep =>
      intro n i h _
      exact ⟨(hmoves n i).sound h.1, Moves.inside quiet_fits (hmoves n i) h.1 h.2⟩
    case lower =>
      intro n i h _
      rcases (hmoves n i).settle h.1 h.2 with hlt | hkept
      · exact .inl hlt
      · exact .inr ⟨hkept.weight_eq, fun j hj => hstill _ _ j hkept hj⟩
    case act =>
      rintro n _ i h _ rfl hj
      exact (hmoves n i).settle_lt h.1 h.2 (hdue n i hj)
  exact hsettling.run_lt ⟨hn, hinside⟩ hi (fun _ _ => trivial) ⟨i, List.mem_finRange i, rfl⟩

theorem rxTaskHandler_lt {answers : FrameSlot → Answer}
    (hanswers : ∀ i, ∀ r ∈ (answers i).requests, quiet.requested r) (hn : n.Sound)
    (hinside : n.Inside) (hi : RxDue (n.frames i)) :
    (n.rxTaskHandler p answers).weight < n.weight := by
  apply foldl_lt (fun n i => RxDue (n.frames i)) (rxHandle_moves hanswers)
    (fun n i => rxHandle_ne) _ hn hinside hi
  intro n m j hstill hj
  rw [hstill.frames]
  exact hj

theorem txTaskHandler_lt (p : Platform) (hn : n.Sound) (hinside : n.Inside)
    (hi : TxDue n.txPhyActiveFrame (n.frames i)) : n.txTaskHandler.weight < n.weight := by
  apply foldl_lt (p := p) (fun n i => TxDue n.txPhyActiveFrame (n.frames i)) txHandle_moves
    (fun n i => txHandle_ne) _ hn hinside hi
  intro n m j hstill hj
  rw [hstill.frames, hstill.phy]
  exact hj

theorem securityTaskHandler_lt (hn : n.Sound) (hinside : n.Inside)
    (hdue : n.securityActiveFrame = some i ∨ (n.frames i).state = .securityEncryptPending ∨
      (n.frames i).state = .securityDecryptPending) :
    (n.securityTaskHandler p).weight < n.weight := by
  have hsecured : (n.frames i).state.secured = true := by
    rcases hdue with hactive | hi | hi
    · rcases (hn.frame i).active.mp hactive with hi | hi <;> rw [hi] <;> rfl
    · rw [hi]
      rfl
    · rw [hi]
      rfl
  have hcount : n.securityActiveFrames ≠ 0 := by
    intro hzero
    have hsecuring := hn.securing
    have hpos := le_total NwkFrame.securing n.frames i
    have hle : total NwkFrame.securing n.frames ≤ 5 := by
      apply total_le_card
      intro f
      rw [NwkFrame.securing]
      split <;> simp
    rw [securing_one hsecured] at hpos
    rw [hzero, Nwk.securing] at hsecuring
    have hnat := congrArg BitVec.toNat hsecuring
    rw [BitVec.toNat_ofNat, Nat.mod_eq_of_lt (by omega)] at hnat
    change 0 = _ at hnat
    omega
  rw [securityTaskHandler, if_neg hcount]
  cases hactive : n.securityActiveFrame with
  | some j =>
    dsimp only
    rcases (hn.frame j).active.mp hactive with hj | hj
    · rw [if_neg (by simp [hj]), if_pos hj]
      exact crypt_lt hn hactive hj
    · rw [if_pos hj]
      exact secured_lt hn hactive hj
  | none =>
    have hpending := hdue.resolve_left (by simp [hactive])
    dsimp only
    split
    case h_1 j hfind =>
      have hj := List.find?_some hfind
      rw [Bool.or_eq_true, decide_eq_true_eq, decide_eq_true_eq] at hj
      exact start_lt hn (hinside.frame j) hactive hj
    case h_2 hnone =>
      have hi := List.find?_eq_none.mp hnone i (List.mem_finRange i)
      rw [Bool.or_eq_true, decide_eq_true_eq, decide_eq_true_eq] at hi
      exact absurd hpending hi

theorem phyDataConf_lt (p : Platform) (hn : n.Sound) (hinside : n.Inside) (status : PhyStatus)
    (hactive : n.txPhyActiveFrame = some i) : (n.phyDataConf status).weight < n.weight := by
  apply (phyDataConf_moves (p := p) status n).settle_lt (i := i) hn hinside
  rw [phyDataConf, hactive, (hn.frame i).phy.mp hactive]
  change ((n.setFrame i { n.frames i with
    state := .txSent, status := txConvertPhyStatus status }).frames i).state ≠ _
  simp

theorem dataReqTask_ne {passed queue : List DataReq} (hdue : ∃ r ∈ queue, r.state ≠ .waitConf) :
    (dataReqTask p [] n passed queue).dataReqQueue ≠ passed.reverse ++ queue := by
  induction queue generalizing passed with
  | nil =>
    rcases hdue with ⟨r, hr, _⟩
    exact absurd hr List.not_mem_nil
  | cons req queue ih =>
    rw [dataReqTask]
    cases hreq : req.state with
    | initial =>
      intro heq
      have hsame : (n.dataReqSendFrame p req).1 = req :=
        (List.cons.inj (List.append_cancel_left heq)).1
      rw [dataReqSendFrame] at hsame
      have hstate := congrArg DataReq.state hsame
      rw [hreq] at hstate
      split at hstate <;> cases hstate
    | waitConf =>
      have hrest : ∃ r ∈ queue, r.state ≠ .waitConf := by
        rcases hdue with ⟨r, hr, hne⟩
        rcases List.mem_cons.mp hr with rfl | hr
        · exact absurd hreq hne
        · exact ⟨r, hr, hne⟩
      have hnext : (dataReqTask p [] n (req :: passed) queue).dataReqQueue ≠
          (req :: passed).reverse ++ queue := ih hrest
      rw [List.reverse_cons, List.append_assoc] at hnext
      exact hnext
    | confirm =>
      intro heq
      have hlength := congrArg List.length heq
      simp [dataReqConfirm] at hlength

theorem dataReqTaskHandler_lt (hn : n.Sound) (hinside : n.Inside)
    (hdue : ∃ r ∈ n.dataReqQueue, r.state ≠ .waitConf) :
    (n.dataReqTaskHandler p []).weight < n.weight := by
  have hmoves : Moves p quiet n (n.dataReqTaskHandler p []) :=
    dataReqTaskHandler_moves (fun r hr => absurd hr List.not_mem_nil) n
  rcases hmoves.settle hn hinside with hlt | hstill
  · exact hlt
  · exact absurd hstill.queue (dataReqTask_ne hdue)

/-! ### Rounds -/

/-- What takes its turn in every round. -/
inductive Turn where
  | rxTask
  | txTask
  | dataReqTask
  | securityTask
  | phyDataConf
  | ackWaitTimer
  | delayTimer

def Action.turn : Action → Option Turn
  | .rxTask _ => some .rxTask
  | .txTask => some .txTask
  | .dataReqTask _ => some .dataReqTask
  | .securityTask => some .securityTask
  | .phyDataConf _ => some .phyDataConf
  | .ackWaitTimer => some .ackWaitTimer
  | .delayTimer => some .delayTimer
  | _ => none

/-- There is something to do for it. -/
def Turn.Due (n : Nwk) : Turn → Prop
  | .rxTask => ∃ i, RxDue (n.frames i)
  | .txTask => ∃ i, TxDue n.txPhyActiveFrame (n.frames i)
  | .dataReqTask => ∃ r ∈ n.dataReqQueue, r.state ≠ .waitConf
  | .securityTask => ∃ i, n.securityActiveFrame = some i ∨
      (n.frames i).state = .securityEncryptPending ∨ (n.frames i).state = .securityDecryptPending
  | .phyDataConf => ∃ i, n.txPhyActiveFrame = some i
  | .ackWaitTimer => ∃ i, (n.frames i).state = .txWaitAck
  | .delayTimer => ∃ i, (n.frames i).state = .txWaitDelay

theorem Still.due (h : Still n m) {k : Turn} (hk : k.Due n) : k.Due m := by
  cases k <;> simpa only [Turn.Due, h.frames, h.queue, h.phy, h.active] using hk

/-- A turn for which there is something to do does some of it. -/
theorem step_lt (hn : n.Sound) (hinside : n.Inside) {a : Action} (ha : a.Within quiet) {k : Turn}
    (hturn : a.turn = some k) (hdue : k.Due n) : (n.step p a).weight < n.weight := by
  cases a with
  | rxTask answers =>
    cases hturn
    rcases hdue with ⟨i, hi⟩
    exact rxTaskHandler_lt ha hn hinside hi
  | txTask =>
    cases hturn
    rcases hdue with ⟨i, hi⟩
    exact txTaskHandler_lt p hn hinside hi
  | dataReqTask requests =>
    cases hturn
    have hnone : requests = [] := List.eq_nil_iff_forall_not_mem.mpr ha
    rw [hnone]
    exact dataReqTaskHandler_lt hn hinside hdue
  | securityTask =>
    cases hturn
    rcases hdue with ⟨i, hi⟩
    exact securityTaskHandler_lt hn hinside hi
  | phyDataConf status =>
    cases hturn
    rcases hdue with ⟨i, hi⟩
    exact phyDataConf_lt p hn hinside status hi
  | ackWaitTimer =>
    cases hturn
    rcases hdue with ⟨i, hi⟩
    rw [step, if_pos ((hn.frame i).ack hi).1]
    exact ackWait_lt hn hi
  | delayTimer =>
    cases hturn
    rcases hdue with ⟨i, hi⟩
    rw [step, if_pos ((hn.frame i).delay hi).1]
    exact delayWait_lt hn hi
  | _ => cases hturn

theorem step_settling (p : Platform) : Settling (step p) (fun n => n.Sound ∧ n.Inside)
    (Action.Within quiet) (fun k a => a.turn = some k) (fun k n => k.Due n) weight := by
  constructor
  case keep =>
    intro n a h ha
    exact ⟨h.1.step a, Moves.inside quiet_fits (step_moves ha n) h.1 h.2⟩
  case lower =>
    intro n a h ha
    rcases (step_moves (p := p) ha n).settle h.1 h.2 with hlt | hstill
    · exact .inl hlt
    · exact .inr ⟨hstill.weight_eq, fun _ => hstill.due⟩
  case act => exact fun n a k h ha hk hdue => step_lt h.1 h.2 ha hk hdue

theorem due_of_frame (hn : n.Sound) (hi : (n.frames i).state ≠ .free) : ∃ k : Turn, k.Due n := by
  have hrx (h : RxDue (n.frames i)) : ∃ k : Turn, k.Due n := ⟨.rxTask, i, h⟩
  have htx (h : TxDue n.txPhyActiveFrame (n.frames i)) : ∃ k : Turn, k.Due n := ⟨.txTask, i, h⟩
  have hactive (h : (n.frames i).state = .securityProcess ∨ (n.frames i).state = .securityConfirm) :
      ∃ k : Turn, k.Due n := ⟨.securityTask, i, .inl ((hn.frame i).active.mpr h)⟩
  cases hstate : (n.frames i).state with
  | free => exact absurd hstate hi
  | txEncrypt => exact htx (.inl hstate)
  | txWaitDelay => exact ⟨.delayTimer, i, hstate⟩
  | txDelay => exact htx (.inr (.inl hstate))
  | txSend =>
    cases hphy : n.txPhyActiveFrame with
    | none => exact htx (.inr (.inr (.inl ⟨hstate, hphy⟩)))
    | some j => exact ⟨.phyDataConf, j, hphy⟩
  | txWaitConf => exact ⟨.phyDataConf, i, (hn.frame i).phy.mpr hstate⟩
  | txSent => exact htx (.inr (.inr (.inr (.inl hstate))))
  | txWaitAck => exact ⟨.ackWaitTimer, i, hstate⟩
  | txConfirm => exact htx (.inr (.inr (.inr (.inr hstate))))
  | rxReceived => exact hrx (.inl hstate)
  | rxDecrypt => exact hrx (.inr (.inl hstate))
  | rxIndicate => exact hrx (.inr (.inr (.inl hstate)))
  | rxRoute => exact hrx (.inr (.inr (.inr (.inl hstate))))
  | rxFinish => exact hrx (.inr (.inr (.inr (.inr hstate))))
  | securityEncryptPending => exact ⟨.securityTask, i, .inr (.inl hstate)⟩
  | securityDecryptPending => exact ⟨.securityTask, i, .inr (.inr hstate)⟩
  | securityProcess => exact hactive (.inl hstate)
  | securityWait => exact absurd hstate (hn.frame i).wait
  | securityConfirm => exact hactive (.inr hstate)

/-- What is held has its turn: a request that waits has a buffer. -/
theorem due_of_held (hn : n.Sound) (hheld : (∃ i, (n.frames i).state ≠ .free) ∨
    n.dataReqQueue ≠ []) : ∃ k : Turn, k.Due n := by
  rcases hheld with ⟨i, hi⟩ | hqueue
  · exact due_of_frame hn hi
  · rcases List.exists_mem_of_ne_nil _ hqueue with ⟨r, hr⟩
    by_cases hwait : r.state = .waitConf
    · rcases hn.owned.frame r hr hwait with ⟨i, _, howed⟩
      exact due_of_frame hn howed.1
    · exact ⟨.dataReqTask, r, hr, hwait⟩

theorem weight_eq_zero_iff (hn : n.Sound) :
    n.weight = 0 ↔ (∀ i, (n.frames i).state = .free) ∧ n.dataReqQueue = [] := by
  rw [weight, Nat.add_eq_zero_iff, total_eq_zero_iff]
  apply and_congr
  · apply forall_congr'
    intro i
    have hwait := (hn.frame i).wait
    rw [NwkFrame.weight]
    cases hstate : (n.frames i).state <;> simp_all
    all_goals split <;> omega
  · rw [List.sum_eq_zero_iff]
    constructor
    · intro hzero
      apply List.eq_nil_iff_forall_not_mem.mpr
      intro r hr
      have hr := hzero r.weight (List.mem_map_of_mem hr)
      have hpos := r.weight_pos
      omega
    · rintro hnone
      simp [hnone]

/-- A round of a node that is left alone: all turns are taken, in any order and any number of
times. -/
abbrev QuietRound : List Action → Prop :=
  Round (Action.Within quiet) fun k a => a.turn = some k

/-- A node that is left alone comes to rest within as many rounds as its weight: all buffers are
free, it is not busy, and every request that has been made is confirmed once. -/
theorem run_settles (p : Platform) {actions : List Action} (hactions : ∀ a ∈ actions, a.Fits)
    {rounds : List (List Action)} (hrounds : ∀ round ∈ rounds, QuietRound round)
    (hcount : (run (step p) init actions).weight ≤ rounds.length) :
    let n := run (step p) init (actions ++ rounds.flatten)
    (∀ i, (n.frames i).state = .free) ∧ n.dataReqQueue = [] ∧ n.busy = false ∧
      (n.history.filterMap Record.confirmation).Perm (List.range n.requests) := by
  have hstart := run_sound_inside p hactions
  intro n
  have hend : n = run (step p) (run (step p) init actions) rounds.flatten := run_append _ _ _
  have hzero : n.weight = 0 := by
    rw [hend]
    apply (step_settling p).rounds _ hstart hrounds hcount
    intro n h hne
    apply due_of_held h.1
    by_contra hnone
    rw [not_or, not_exists] at hnone
    apply hne
    rw [weight_eq_zero_iff h.1]
    exact ⟨fun i => not_not.mp (hnone.1 i), not_not.mp hnone.2⟩
  have hn : n.Sound := run_sound p _
  rcases (weight_eq_zero_iff hn).mp hzero with ⟨hframes, hqueue⟩
  refine ⟨hframes, hqueue, ?_, ?_⟩
  · have hlength : n.dataReqQueue.length < 65530 := by
      rw [hqueue]
      decide
    apply Bool.eq_false_of_not_eq_true
    rw [hn.busy_iff hlength]
    rintro (⟨i, hi⟩ | hne)
    · exact hi (hframes i)
    · exact hne hqueue
  · have hnumbers := hn.numbers
    rw [hqueue] at hnumbers
    exact hnumbers

def exampleRound : List Action :=
  [.rxTask fun _ => ⟨true, 0, []⟩, .txTask, .dataReqTask [], .securityTask, .phyDataConf .success,
    .ackWaitTimer, .delayTimer]

theorem exampleRound_quiet : QuietRound exampleRound where
  quiet a ha := by
    simp only [exampleRound, List.mem_cons, List.not_mem_nil, or_false] at ha
    rcases ha with rfl | rfl | rfl | rfl | rfl | rfl | rfl
    case inl => exact fun i r hr => absurd hr List.not_mem_nil
    case inr.inr.inl => exact fun r hr => absurd hr List.not_mem_nil
    all_goals trivial
  full k := by cases k <;> simp [exampleRound, Action.turn]

/-- The requests of the example have all been confirmed after as many rounds as they need. -/
theorem exampleActions_settle :
    let n := run (step examplePlatform) init (exampleActions ++ (List.replicate
      (run (step examplePlatform) init exampleActions).weight exampleRound).flatten)
    (∀ i, (n.frames i).state = .free) ∧ n.dataReqQueue = [] ∧ n.busy = false ∧
      (n.history.filterMap Record.confirmation).Perm (List.range n.requests) :=
  run_settles examplePlatform (by decide)
    (fun _ hround => List.eq_of_mem_replicate hround ▸ exampleRound_quiet)
    (List.length_replicate.ge)

end Nwk

end Aquila.Lwm
