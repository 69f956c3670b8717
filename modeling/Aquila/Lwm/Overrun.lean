import Aquila.Lwm.Provenance

/-! # No buffer is overrun

The stack copies what it is given into its buffers without a look at its size. The sizes are
right as long as requests keep to `NWK_MAX_PAYLOAD_SIZE` and every secured frame that arrives
has its check; the stack then sends nothing that would make another node overrun a buffer.
-/

namespace Aquila.Lwm
open Library Bridge Mesh

def nwkMaxPayloadSize : ℕ := 127 - 16 - 2

/-- A payload fits into a frame, with its check if it is to be secured. -/
def Room (security : Bool) (payload : List Byte) : Prop :=
  payload.length + (if security then nwkSecurityMicSize else 0) ≤ nwkMaxPayloadSize

instance decidableRoom (security : Bool) (payload : List Byte) :
    Decidable (Room security payload) :=
  inferInstanceAs (Decidable (_ ≤ _))

def DataParams.Fits (params : DataParams) : Prop :=
  Room (params.options &&& nwkOptEnableSecurity != 0) params.data

instance decidableFits (params : DataParams) : Decidable params.Fits :=
  inferInstanceAs (Decidable (Room _ _))

/-- The bytes of a frame as the radio delivers it, with its check if it is secured. -/
def Airworthy (data : List Byte) : Prop :=
  data.length ≤ headerSize + nwkMaxPayloadSize ∧
    ((NwkFrameHeader.ofBytes data).security = true → headerSize + nwkSecurityMicSize ≤ data.length)

instance decidableAirworthy (data : List Byte) : Decidable (Airworthy data) :=
  inferInstanceAs (Decidable (_ ∧ (_ → _)))

/-- What arrives and what is asked for fits into the buffers. -/
structure Environment.Fits (e : Environment) : Prop where
  received : ∀ data, e.received data → Airworthy data
  requested : ∀ params, e.requested params → params.Fits

/-- What a buffer holds fits into it, and will. -/
structure Roomy (f : NwkFrame) : Prop where
  size : f.payload.length ≤ nwkMaxPayloadSize
  clear : f.state = .txEncrypt ∨ f.state = .securityEncryptPending → Room true f.payload
  check : f.state.onAir = true → f.header.security = true → nwkSecurityMicSize ≤ f.payload.length
  secured : f.state = .rxDecrypt ∨ f.state = .securityDecryptPending → f.header.security = true

/-- The block that comes next lies in the payload, and there is room for the check after it. -/
structure Security.Inside (s : Security) (f : NwkFrame) : Prop where
  rest : f.state = .securityProcess → s.offset + s.size = f.payload.length
  room : Room s.encrypt f.payload

variable {e : Environment} {f g : NwkFrame} {p : Platform}

theorem Room.size {security : Bool} {payload : List Byte} (h : Room security payload) :
    payload.length ≤ nwkMaxPayloadSize :=
  Nat.le_of_add_right_le h

theorem Room.of_size {payload : List Byte} (h : payload.length ≤ nwkMaxPayloadSize) :
    Room false payload := h

theorem Roomy.of_silent (hsize : f.payload.length ≤ nwkMaxPayloadSize)
    (hf : f.state.silent = true) : Roomy f := by
  constructor
  case size => exact hsize
  all_goals
    intro hs
    cases hstate : f.state <;> simp_all [FrameState.silent, FrameState.onAir]

theorem Roomy.of_carrying (hsize : f.payload.length ≤ nwkMaxPayloadSize)
    (hf : f.state.carrying = true)
    (hcheck : f.header.security = true → nwkSecurityMicSize ≤ f.payload.length) : Roomy f where
  size := hsize
  clear := by
    rintro (hs | hs)
    all_goals exact absurd hs (carrying_ne hf rfl)
  check _ := hcheck
  secured := by
    rintro (hs | hs)
    all_goals exact absurd hs (carrying_ne hf rfl)

theorem Roomy.carrying (h : Roomy f) (hf : f.state.carrying = true) (hg : g.state.carrying = true)
    (hheader : g.header = f.header) (hpayload : g.payload = f.payload) : Roomy g := by
  apply Roomy.of_carrying
  · rw [hpayload]
    exact h.size
  · exact hg
  · rw [hheader, hpayload]
    exact h.check (onAir_carrying hf)

theorem Roomy.forwarded (h : Roomy f) (hf : f.state.onAir = true) (hg : g.state = .txDelay)
    (hnwk : g.header.nwk = f.header.nwk) (hpayload : g.payload = f.payload) : Roomy g := by
  apply Roomy.of_carrying
  · rw [hpayload]
    exact h.size
  · rw [hg]
    rfl
  · rw [nwk_congr NwkFrameHeader.security hnwk fun _ => rfl, hpayload]
    exact h.check hf

/-- The frames of a node's own, as `nwkTxFrame` leaves them. -/
theorem Prepared.roomy {panId : Word} (hf : Nwk.Prepared panId g f)
    (hg : Room g.header.security g.payload) (hcontrol : g.control &&& txControlRouting = 0) :
    Roomy f := by
  have hsize : f.payload.length ≤ nwkMaxPayloadSize := by
    rw [hf.payload]
    exact hg.size
  have hstate := hf.state
  rw [if_neg (not_not_intro hcontrol)] at hstate
  cases hsecured : g.header.security with
  | true =>
    rw [if_pos hsecured] at hstate
    rw [hsecured] at hg
    constructor
    case size => exact hsize
    case clear =>
      intro _
      rw [hf.payload]
      exact hg
    case check => simp [hstate, FrameState.onAir]
    case secured => simp [hstate]
  | false =>
    rw [hsecured, if_neg Bool.false_ne_true] at hstate
    apply Roomy.of_carrying hsize (by rw [hstate]; rfl)
    rw [nwk_congr NwkFrameHeader.security hf.nwk fun _ => rfl, hsecured]
    exact fun htrue => absurd htrue Bool.false_ne_true

theorem Roomy.passed {n : Nwk} {state : FrameState} (h : Roomy f) (hf : f.state = .rxReceived)
    (hstate : n.Passed f state) : Roomy { f with state := state } where
  size := h.size
  clear := by rcases hstate.state_cases with rfl | rfl | rfl | rfl <;> simp
  check _ := h.check (by rw [hf]; rfl)
  secured := by
    cases hstate with
    | finish => simp
    | route => simp
    | accept =>
      dsimp only
      rw [Nwk.rxAccept]
      split
      case isTrue hsecurity => exact fun _ => hsecurity
      case isFalse => simp

theorem Roomy.pending (h : Roomy f) (encrypt : Bool)
    (hf : f.state = if encrypt then .txEncrypt else .rxDecrypt) :
    Roomy { f with
      state := if encrypt then .securityEncryptPending else .securityDecryptPending } := by
  cases encrypt with
  | true => exact ⟨h.size, fun _ => h.clear (.inl hf), by simp [FrameState.onAir], by simp⟩
  | false =>
    have hair : f.state.onAir = true := by
      rw [hf]
      rfl
    exact ⟨h.size, by simp, fun _ => h.check hair, fun _ => h.secured (.inl hf)⟩

/-! ### The security module -/

/-- A frame that is given to the security module to decrypt has its check. -/
theorem Roomy.mic (h : Roomy f) (hf : f.state = .securityDecryptPending) :
    nwkSecurityMicSize ≤ f.payload.length :=
  h.check (by rw [hf]; rfl) (h.secured (.inr hf))

theorem Roomy.start (h : Roomy f)
    (hf : f.state = .securityEncryptPending ∨ f.state = .securityDecryptPending) :
    (Security.start f).1.Inside (Security.start f).2 := by
  rcases hf with hf | hf
  · have hroom := h.clear (.inr hf)
    constructor
    case rest => simp [Security.start, hf]
    case room => simpa [Security.start, hf] using hroom
  · have hmic := h.mic hf
    have hsize := h.size
    have hdirection : (FrameState.securityDecryptPending == .securityEncryptPending) = false := rfl
    have hlong : ¬ f.payload.length < nwkSecurityMicSize := Nat.not_lt.mpr hmic
    constructor
    case rest =>
      intro _
      simp only [Security.start, hf, hdirection, hlong, Bool.false_eq_true, if_false,
        List.length_take]
      omega
    case room =>
      simp only [Security.start, hf, hdirection, hlong, Bool.false_eq_true, if_false]
      apply Room.of_size
      rw [List.length_take]
      omega

theorem Security.Inside.length_encryptReq {s : Security} (h : s.Inside f)
    (hf : f.state = .securityProcess) (aes : SecurityBlock → SecurityBlock) :
    (s.encryptReq aes { f with state := .securityWait }).2.payload.length = f.payload.length := by
  have hrest := h.rest hf
  simp only [Security.encryptReq, List.length_append, Feedback.length_mix, List.length_take,
    List.length_drop]
  omega

theorem Security.Inside.crypt {s : Security} (h : s.Inside f) (hf : f.state = .securityProcess)
    (aes : SecurityBlock → SecurityBlock) :
    (s.encryptReq aes { f with state := .securityWait }).1.Inside
      (s.encryptReq aes { f with state := .securityWait }).2 := by
  have hrest := h.rest hf
  have hlength := h.length_encryptReq hf aes
  constructor
  case rest =>
    intro _
    rw [hlength, ← hrest]
    simp only [Security.encryptReq]
    omega
  case room =>
    rw [Room, hlength]
    exact h.room

/-- What the security module hands back. -/
theorem Security.Inside.confirm {s : Security} (h : s.Inside f) :
    Roomy { (s.processMic f).2 with
      state := if s.encrypt then .txDelay
        else if (s.processMic f).1 then .rxIndicate else .rxFinish } := by
  have hroom := h.room
  cases hencrypt : s.encrypt with
  | true =>
    rw [hencrypt, Room, if_pos rfl, nwkSecurityMicSize] at hroom
    simp only [Security.processMic, hencrypt, if_true]
    apply Roomy.of_carrying
    · rw [List.length_append, List.length_ofFn]
      exact hroom
    · rfl
    · intro _
      rw [List.length_append, List.length_ofFn]
      exact Nat.le_add_left _ _
  | false =>
    simp only [Security.processMic, hencrypt, Bool.false_eq_true, if_false]
    constructor
    case size => exact hroom.size
    all_goals split <;> simp [FrameState.onAir]

/-! ### The air -/

/-- A received frame with the size that its test has let through. -/
theorem airworthy_frame {ind : PhyDataInd} (hwell : ind.wellFormed = true)
    (hdata : Airworthy ind.data) : Roomy ind.frame := by
  have hheader : headerSize ≤ ind.data.length := by
    rw [PhyDataInd.wellFormed, Bool.and_eq_true, decide_eq_true_eq] at hwell
    exact hwell.2
  have hlength : ind.frame.payload.length = ind.data.length - headerSize := List.length_drop
  apply Roomy.of_carrying
  · rw [hlength]
    exact Nat.sub_le_of_le_add (by rw [Nat.add_comm]; exact hdata.1)
  · rfl
  · intro hsecurity
    rw [hlength]
    exact Nat.le_sub_of_add_le (by rw [Nat.add_comm]; exact hdata.2 hsecurity)

theorem Roomy.airworthy (h : Roomy f) (hf : f.state.onAir = true) : Airworthy f.data := by
  have hlength : f.data.length = headerSize + f.payload.length := by
    rw [NwkFrame.data, List.length_append, NwkFrameHeader.length_toBytes]
  constructor
  · rw [hlength]
    exact Nat.add_le_add_left h.size headerSize
  · rw [NwkFrame.data, NwkFrameHeader.ofBytes_toBytes, ← NwkFrame.data, hlength]
    exact fun hsecurity => Nat.add_le_add_left (h.check hf hsecurity) headerSize

namespace Nwk

/-- No buffer has been overrun, and none will be. -/
structure Inside (n : Nwk) : Prop where
  overrun : n.overrun = false
  queue : ∀ r ∈ n.dataReqQueue, r.params.Fits
  frame : ∀ i, Roomy (n.frames i)
  active : ∀ i, n.securityActiveFrame = some i → n.security.Inside (n.frames i)
  sent : ∀ data, .sent data ∈ n.history → Airworthy data

theorem init_inside : init.Inside where
  overrun := rfl
  queue _ hr := absurd hr List.not_mem_nil
  frame _ := Roomy.of_silent (Nat.zero_le _) rfl
  active i hi := absurd hi (Option.some_ne_none i).symm
  sent _ hr := absurd hr List.not_mem_nil

variable {n m : Nwk} {i : FrameSlot}

/-- What no size depends on. -/
theorem Inside.congr (h : n.Inside) (hoverrun : m.overrun = n.overrun)
    (hqueue : m.dataReqQueue = n.dataReqQueue) (hframes : m.frames = n.frames)
    (hactive : m.securityActiveFrame = n.securityActiveFrame)
    (hsecurity : m.security = n.security)
    (hsent : ∀ data, .sent data ∈ m.history → .sent data ∈ n.history) : m.Inside := by
  constructor
  case overrun =>
    rw [hoverrun]
    exact h.overrun
  case queue =>
    rw [hqueue]
    exact h.queue
  case frame =>
    rw [hframes]
    exact h.frame
  case active =>
    rw [hframes, hactive, hsecurity]
    exact h.active
  case sent => exact fun data hdata => h.sent data (hsent data hdata)

theorem Inside.setFrame (h : n.Inside) (hi : n.securityActiveFrame ≠ some i) (hf : Roomy f) :
    (n.setFrame i f).Inside where
  overrun := h.overrun
  queue := h.queue
  frame j := by
    by_cases hji : j = i
    · subst hji
      rw [setFrame_self]
      exact hf
    · rw [setFrame_of_ne hji]
      exact h.frame j
  active j hj := by
    have hji : j ≠ i := by
      rintro rfl
      exact hi hj
    rw [setFrame_of_ne hji]
    exact h.active j hj
  sent := h.sent

theorem Inside.take (h : n.Inside) (hi : n.securityActiveFrame ≠ some i) (hf : Roomy f) :
    (n.take i f).Inside :=
  (h.setFrame hi hf).congr rfl rfl rfl rfl rfl fun _ => id

theorem Inside.fill (h : n.Inside) {size : ℕ} (hsize : size ≤ nwkMaxPayloadSize) :
    (n.fill size).Inside := by
  have hroom : decide (nwkFrameMaxPayloadSize < headerSize + size) = false := by
    rw [decide_eq_false_iff_not, nwkFrameMaxPayloadSize, headerSize]
    rw [nwkMaxPayloadSize] at hsize
    omega
  refine ⟨?_, h.queue, h.frame, h.active, h.sent⟩
  rw [Nwk.fill, h.overrun, hroom]
  rfl

theorem Inside.originate (h : n.Inside) {r : Record} (hr : r.origin.isSome = true) :
    (n.originate r).Inside := by
  refine h.congr rfl rfl rfl rfl rfl ?_
  intro data hdata
  rcases List.mem_cons.mp hdata with rfl | hdata
  · cases hr
  · exact hdata

theorem Inside.requests (h : n.Inside) {queue : List DataReq}
    (hqueue : ∀ r ∈ queue, ∃ q ∈ n.dataReqQueue, q.params = r.params) :
    Inside { n with dataReqQueue := queue } where
  overrun := h.overrun
  queue r hr := by
    rcases hqueue r hr with ⟨q, hq, hparams⟩
    rw [← hparams]
    exact h.queue q hq
  frame := h.frame
  active := h.active
  sent := h.sent

theorem replace_params {before after : List DataReq} {req req' : DataReq}
    (hparams : req'.params = req.params) :
    ∀ r ∈ before ++ req' :: after, ∃ q ∈ before ++ req :: after, q.params = r.params := by
  intro r hr
  rcases mem_middle.mp hr with rfl | hr
  · exact ⟨req, mem_middle.mpr (.inl rfl), hparams.symm⟩
  · exact ⟨r, mem_middle.mpr (.inr hr), rfl⟩

theorem Inside.sweep (h : n.Inside) (hn : n.Sound) {rewrite : NwkFrame → NwkFrame}
    (hrewrite : ∀ f, rewrite f = f ∨ Ticked f (rewrite f)) :
    Inside { n with frames := fun i => rewrite (n.frames i) } where
  overrun := h.overrun
  queue := h.queue
  frame i := by
    rcases hrewrite (n.frames i) with hsame | hticked
    · dsimp only
      rw [hsame]
      exact h.frame i
    · exact (h.frame i).carrying hticked.before hticked.after hticked.header hticked.payload
  active i hi := by
    rcases hrewrite (n.frames i) with hsame | hticked
    · dsimp only
      rw [hsame]
      exact h.active i hi
    · exact absurd hi (hn.inactive (.inr hticked.plain))
  sent := h.sent

/-- A frame goes on in its transmission. -/
theorem Inside.transmit (h : n.Inside) (hn : n.Sound) (hi : (n.frames i).state.carrying = true)
    (hplain : (n.frames i).state.plain = true) (hf : f.state.carrying = true)
    (hheader : f.header = (n.frames i).header) (hpayload : f.payload = (n.frames i).payload) :
    (n.setFrame i f).Inside :=
  h.setFrame (hn.inactive (.inr hplain)) ((h.frame i).carrying hi hf hheader hpayload)

/-- A frame of the node's own takes a free buffer. -/
theorem Inside.launched (h : n.Inside) (hn : n.Sound) (hi : (n.frames i).state = .free)
    (hf : Prepared n.panId g f) (hg : Room g.header.security g.payload)
    (hcontrol : g.control &&& txControlRouting = 0) : (n.take i f).Inside :=
  h.take (hn.inactive (.inl hi)) (Prepared.roomy hf hg hcontrol)

theorem Inside.securityStart (h : n.Inside) (hactive : n.securityActiveFrame = none)
    (hi : (n.frames i).state = .securityEncryptPending ∨
      (n.frames i).state = .securityDecryptPending) : (n.securityStart i).Inside := by
  have hnone : n.securityActiveFrame ≠ some i := by
    rw [hactive]
    exact (Option.some_ne_none i).symm
  have hinside := (h.frame i).start hi
  have hsize : (Security.start (n.frames i)).2.payload.length ≤ nwkMaxPayloadSize :=
    hinside.room.size
  have hset := h.setFrame (f := (Security.start (n.frames i)).2) hnone
    (Roomy.of_silent hsize rfl)
  constructor
  case overrun =>
    rw [Nwk.securityStart, h.overrun, Bool.false_or, Bool.and_eq_false_iff]
    rcases hi with hi | hi
    · left
      rw [hi]
      rfl
    · right
      rw [decide_eq_false_iff_not, Nat.not_lt]
      exact (h.frame i).mic hi
  case queue => exact h.queue
  case frame => exact hset.frame
  case active =>
    intro j hj
    rcases Option.some.inj hj with rfl
    change (Security.start (n.frames i)).1.Inside
      ((n.setFrame i (Security.start (n.frames i)).2).frames i)
    rw [setFrame_self]
    exact hinside
  case sent => exact h.sent

theorem Inside.securityCrypt (h : n.Inside) (hactive : n.securityActiveFrame = some i)
    (hi : (n.frames i).state = .securityProcess) : (n.securityCrypt p i).Inside := by
  have hcrypt := (h.active i hactive).crypt hi (p.aes n.key)
  have hsilent : (n.security.encryptReq (p.aes n.key)
      { n.frames i with state := .securityWait }).2.state.silent = true := by
    rw [Security.encryptReq]
    dsimp only
    split <;> rfl
  constructor
  case overrun => exact h.overrun
  case queue => exact h.queue
  case frame =>
    intro j
    rw [Nwk.securityCrypt]
    by_cases hji : j = i
    · subst hji
      rw [setFrame_self]
      exact Roomy.of_silent hcrypt.room.size hsilent
    · rw [setFrame_of_ne hji]
      exact h.frame j
  case active =>
    intro j hj
    rcases Option.some.inj (hactive.symm.trans hj) with rfl
    rw [Nwk.securityCrypt, setFrame_self]
    exact hcrypt
  case sent => exact h.sent

theorem Inside.securityConf (h : n.Inside) (hactive : n.securityActiveFrame = some i) :
    (n.securityConf i).Inside := by
  have hconf := (h.active i hactive).confirm
  have hfill := h.fill hconf.size
  constructor
  case overrun => exact hfill.overrun
  case queue => exact h.queue
  case frame =>
    intro j
    by_cases hji : j = i
    · subst hji
      exact (congrArg Roomy (Function.update_self ..)).mpr hconf
    · exact (congrArg Roomy (Function.update_of_ne hji _ _)).mpr (h.frame j)
  case active => exact fun j hj => absurd hj (Option.some_ne_none j).symm
  case sent => exact h.sent

theorem Move.inside (he : e.Fits) (hmove : Move p e n m) (hn : n.Sound) (h : n.Inside) :
    m.Inside := by
  cases hmove with
  | keep => exact h.congr rfl rfl rfl rfl rfl fun _ => id
  | indicate =>
    refine h.congr rfl rfl rfl rfl rfl ?_
    exact fun data hdata => (List.mem_cons.mp hdata).resolve_left (by simp)
  | post params hparams =>
    refine ⟨h.overrun, ?_, h.frame, h.active, h.sent⟩
    rw [dataReq, List.forall_mem_cons]
    exact ⟨he.requested _ hparams, h.queue⟩
  | receive i ind hi hind hair =>
    have hframe := airworthy_frame hind (he.received _ hair)
    exact (h.take (hn.inactive (.inl hi)) hframe).fill hframe.size
  | pass j state hj hstate =>
    exact h.setFrame (hn.inactive (.inr (plain_of hj rfl))) ((h.frame j).passed hj hstate)
  | relay i j state f hi hj hstate hpan hf =>
    have htake := h.take (hn.inactive (.inl hi))
      ((h.frame j).forwarded (by rw [hj]; rfl) hf.state hf.nwk hf.payload)
    have hframe := take_frames_ne (n := n) (f := f) (slot_ne hi hj (by simp))
    apply htake.setFrame (hn.inactive (.inr (plain_of hj rfl)))
    rw [hframe]
    exact (h.frame j).passed hj hstate
  | finish j hj =>
    exact h.setFrame (hn.inactive (.inr (plain_of hj rfl))) (Roomy.of_silent (h.frame j).size rfl)
  | acknowledge i j control f hi hj hcause hf =>
    have hroom : Room (n.frames j).header.security (n.ackFrame (n.frames j) control).payload := by
      have hlength : (n.ackFrame (n.frames j) control).payload.length = 3 := rfl
      rw [Room, hlength]
      split <;> decide
    have htake := h.launched hn hi hf hroom BitVec.zero_and
    have hset := htake.setFrame (i := j) (f := { (n.take i f).frames j with state := .rxFinish })
      (hn.inactive (.inr (plain_of hj rfl))) (Roomy.of_silent (htake.frame j).size rfl)
    exact hset.originate rfl
  | hear i j hi hj hservice hdata control =>
    exact h.transmit (f := { n.frames i with state := .txConfirm, control := control }) hn
      (carrying_of hi rfl) (plain_of hi rfl) rfl rfl rfl
  | route j f hj hf =>
    have hrouting : txControlRouting &&& txControlRouting ≠ 0 := by decide
    have hstate : f.state = .txDelay := hf.state.trans (if_pos hrouting)
    exact h.setFrame (hn.inactive (.inr (plain_of hj rfl)))
      ((h.frame j).forwarded (by rw [hj]; rfl) hstate hf.nwk hf.payload)
  | report i j f hi hj hf =>
    have hroom : Room false (n.errorFrame (n.frames j)).payload := by
      have hlength : (n.errorFrame (n.frames j)).payload.length = 6 := rfl
      rw [Room, hlength]
      decide
    have htake := h.launched hn hi hf hroom BitVec.zero_and
    have hset := htake.setFrame (i := j) (f := { (n.take i f).frames j with state := .free })
      (hn.inactive (.inr (plain_of hj rfl))) (Roomy.of_silent (htake.frame j).size rfl)
    have hfree : ((n.take i f).frameFree j).Inside :=
      hset.congr rfl rfl rfl rfl rfl fun _ => id
    exact hfree.originate rfl
  | release j hj =>
    have hplain : (n.frames j).state.plain = true := by
      rcases hj with hj | hj | ⟨hj, _⟩ <;> rw [hj] <;> rfl
    exact (h.setFrame (f := { n.frames j with state := .free }) (hn.inactive (.inr hplain))
      (Roomy.of_silent (h.frame j).size rfl)).congr rfl rfl rfl rfl rfl fun _ => id
  | secure i encrypt hi =>
    have hplain : (n.frames i).state.plain = true := by
      rw [hi]
      cases encrypt <;> rfl
    exact (h.setFrame (hn.inactive (.inr hplain)) ((h.frame i).pending encrypt hi)).congr rfl rfl
      rfl rfl rfl fun _ => id
  | start i hactive hi => exact h.securityStart hactive hi
  | crypt i hactive hi => exact h.securityCrypt hactive hi
  | secured i hactive hi => exact h.securityConf hactive
  | delay i hi htimeout =>
    exact (h.transmit (f := { n.frames i with state := .txWaitDelay }) hn (carrying_of hi rfl)
      (plain_of hi rfl) rfl rfl rfl).congr rfl rfl rfl rfl rfl fun _ => id
  | ready i hi =>
    exact h.transmit (f := { n.frames i with state := .txSend }) hn (carrying_of hi rfl)
      (plain_of hi rfl) rfl rfl rfl
  | send i hi hactive =>
    have hair := (h.frame i).airworthy (onAir_carrying (carrying_of hi rfl))
    have hset := h.transmit (f := { n.frames i with state := .txWaitConf }) hn
      (carrying_of hi rfl) (plain_of hi rfl) rfl rfl rfl
    refine ⟨hset.overrun, hset.queue, hset.frame, hset.active, ?_⟩
    intro data hdata
    rcases List.mem_cons.mp hdata with heq | hdata
    · rw [Record.sent.inj heq]
      exact hair
    · exact h.sent data hdata
  | phyConf i status hactive =>
    have hi := (hn.frame i).phy.mp hactive
    have hinactive : n.securityActiveFrame ≠ some i := by
      rw [ne_eq, (hn.frame i).active, hi]
      simp
    have hroomy : Roomy { n.frames i with
        state := .txSent, status := txConvertPhyStatus status } :=
      (h.frame i).carrying (carrying_of hi rfl) rfl rfl rfl
    exact (h.setFrame hinactive hroomy).congr rfl rfl rfl rfl rfl fun _ => id
  | wait i hi hstatus hsrc hack =>
    exact (h.transmit (f := { n.frames i with state := .txWaitAck, timeout := ackWaitTimeout }) hn
      (carrying_of hi rfl) (plain_of hi rfl) rfl rfl rfl).congr rfl rfl rfl rfl rfl fun _ => id
  | done i hi hend =>
    exact h.transmit (f := { n.frames i with state := .txConfirm }) hn (carrying_of hi rfl)
      (plain_of hi rfl) rfl rfl rfl
  | ackWait =>
    rw [txAckWaitTimerHandler_eq]
    exact (h.sweep hn ackTicked_cases).congr rfl rfl rfl rfl rfl fun _ => id
  | delayWait =>
    rw [txDelayTimerHandler_eq]
    exact (h.sweep hn delayTicked_cases).congr rfl rfl rfl rfl rfl fun _ => id
  | txConf i hi hconfirm =>
    have hset := h.setFrame (f := { n.frames i with state := .free })
      (hn.inactive (.inr (plain_of hi rfl))) (Roomy.of_silent (h.frame i).size rfl)
    exact (hset.requests (fun _ hr => mem_confirmFirst hr)).congr rfl rfl rfl rfl rfl fun _ => id
  | launch i before req after f hi hqueue hbefore hreq hf =>
    have hfits := h.queue req (by rw [hqueue]; exact mem_middle.mpr (.inl rfl))
    have hcontrol : (n.dataReqFrame req.params).control &&& txControlRouting = 0 := by
      simp only [dataReqFrame]
      split <;> rfl
    have htake := h.launched hn hi hf hfits hcontrol
    have hrecord := (htake.fill hfits.size).originate
      (r := .launched req.number req.params (n.dataReqFrame req.params)) rfl
    apply hrecord.requests
    change ∀ r ∈ _, ∃ q ∈ n.dataReqQueue, q.params = DataReq.params r
    rw [hqueue]
    exact replace_params rfl
  | refuse before req after hqueue hreq =>
    apply h.requests
    rw [hqueue]
    exact replace_params rfl
  | confirm before req after hqueue hreq =>
    have hrest : ∀ r ∈ before ++ after, ∃ q ∈ n.dataReqQueue, q.params = r.params := by
      intro r hr
      rw [hqueue]
      exact ⟨r, mem_middle.mpr (.inr hr), rfl⟩
    refine (h.requests hrest).congr rfl rfl rfl rfl rfl ?_
    exact fun data hdata => (List.mem_cons.mp hdata).resolve_left (by simp)

theorem Moves.inside (he : e.Fits) (hmoves : Moves p e n m) (hn : n.Sound) (h : n.Inside) :
    m.Inside := by
  induction hmoves with
  | refl => exact h
  | tail hmoves hmove ih => exact hmove.inside he (Moves.sound hmoves hn) ih

/-- The calls and the frames that a node is given fit into its buffers. -/
def Action.Fits (a : Action) : Prop :=
  a.configures = true ∨ a.Within ⟨Airworthy, DataParams.Fits⟩

instance decidableActionFits (a : Action) : Decidable a.Fits :=
  have : DecidablePred (Environment.mk Airworthy DataParams.Fits).received := decidableAirworthy
  have : DecidablePred (Environment.mk Airworthy DataParams.Fits).requested := decidableFits
  have := decidableWithin ⟨Airworthy, DataParams.Fits⟩ a
  inferInstanceAs (Decidable (_ ∨ _))

theorem Inside.step (h : n.Inside) (hn : n.Sound) {a : Action} (ha : a.Fits) :
    (n.step p a).Inside := by
  rcases ha with hconfigures | hwithin
  · cases a with
    | setAddr addr => exact h.congr rfl rfl rfl rfl rfl fun _ => id
    | setPanId panId => exact h.congr rfl rfl rfl rfl rfl fun _ => id
    | openEndpoint id => exact h.congr rfl rfl rfl rfl rfl fun _ hdata => hdata
    | setSecurityKey key => exact h.congr rfl rfl rfl rfl rfl fun _ => id
    | _ => cases hconfigures
  · exact Moves.inside ⟨fun _ => id, fun _ => id⟩ (step_moves hwithin n) hn h

theorem run_sound_inside (p : Platform) {actions : List Action}
    (hactions : ∀ a ∈ actions, a.Fits) :
    (run (step p) init actions).Sound ∧ (run (step p) init actions).Inside := by
  have hkeep (n : Nwk) (a : Action) (ha : a.Fits) (h : n.Sound ∧ n.Inside) :
      (n.step p a).Sound ∧ (n.step p a).Inside := ⟨h.1.step a, h.2.step h.1 ha⟩
  exact run_invariant_of (I := fun n : Nwk => n.Sound ∧ n.Inside) hkeep ⟨init_sound, init_inside⟩
    actions hactions

/-- A node whose calls and received frames fit overruns no buffer, and sends only what fits. -/
theorem run_inside (p : Platform) {actions : List Action} (hactions : ∀ a ∈ actions, a.Fits) :
    (run (step p) init actions).overrun = false ∧
      ∀ data, .sent data ∈ (run (step p) init actions).history → Airworthy data := by
  have h := run_sound_inside p hactions
  exact ⟨h.2.overrun, h.2.sent⟩

def exampleLargest : DataParams where
  dstAddr := 2
  dstEndpoint := 3
  srcEndpoint := 3
  options := nwkOptEnableSecurity
  data := List.replicate 105 7
  control := 0

/-- The message is encrypted, while a secured frame arrives that has nothing but its check. -/
def exampleLargestActions : List Action :=
  [.setAddr 1, .dataReq exampleLargest, .dataReqTask [], .txTask] ++
    List.replicate 9 .securityTask ++
    [.txTask, .delayTimer,
      .phyDataInd ⟨[65, 136, 1, 5, 0, 255, 255, 3, 0, 2, 1, 3, 0, 1, 0, 51, 1, 2, 3, 4], 200, 60⟩,
      .txTask]

theorem exampleLargestActions_inside :
    (run (step examplePlatform) init exampleLargestActions).overrun = false ∧
      ∀ data, .sent data ∈ (run (step examplePlatform) init exampleLargestActions).history →
        Airworthy data :=
  run_inside examplePlatform (by decide)

end Nwk

end Aquila.Lwm
