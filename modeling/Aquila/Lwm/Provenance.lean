import Aquila.Lwm.Buffers

/-! # Where frames come from

Nodes of one network share a key and a PAN identifier. A frame on the air then carries a message
that some node has originated, in clear or encrypted as a whole, and so does every buffer: no
node on the way changes the message, and a buffer in the security module is on the way between
the two forms of one message.
-/

namespace Aquila.Lwm
open Library Bridge Mesh

/-- What the nodes of a network have in common: the block function under their key, and their
PAN identifier. -/
structure Setup where
  aes : SecurityBlock → SecurityBlock
  panId : Word

def secureText (aes : SecurityBlock → SecurityBlock) (h : NwkFrameHeader) (text : List Byte) :
    List Byte :=
  let result := Feedback.stream aes true (securityVector h) text
  result.1 ++ List.ofFn (vmic result.2)

/-- The states in which a buffer holds its frame as it is on the air. -/
def FrameState.onAir : FrameState → Bool
  | .rxReceived => true
  | .rxDecrypt => true
  | .rxRoute => true
  | .securityDecryptPending => true
  | .txWaitDelay => true
  | .txDelay => true
  | .txSend => true
  | .txWaitConf => true
  | .txSent => true
  | .txWaitAck => true
  | .txConfirm => true
  | _ => false

def Record.origin : Record → Option NwkFrame
  | .launched _ _ frame => some frame
  | .acked _ ack => some ack
  | .reported frame => some frame
  | _ => none

section

variable (origin : NwkFrame → Prop) (c : Setup)

def Clear (f : NwkFrame) : Prop :=
  ∃ g, origin g ∧ f.header.nwk = g.header.nwk ∧ f.payload = g.payload

def Enciphered (f : NwkFrame) : Prop :=
  ∃ g, origin g ∧ f.header.nwk = g.header.nwk ∧ f.payload = secureText c.aes f.header g.payload

/-- The frame has an originated message in the form of the air. -/
structure Carried (f : NwkFrame) : Prop where
  panId : f.header.macDstPanId = c.panId ∨ f.header.macDstPanId = nwkBroadcastPanId
  clear : f.header.security = false → Clear origin f
  enciphered : f.header.security = true → Enciphered origin c f

/-- The frame is for the node, and not a broadcast that asks for acknowledgements. -/
structure Mine (addr : Word) (f : NwkFrame) : Prop where
  dst : addr = f.header.nwkDstAddr ∨ f.header.nwkDstAddr = nwkBroadcastAddr
  quiet : f.header.macDstPanId ≠ nwkBroadcastPanId →
    ¬ (f.header.nwkDstAddr = nwkBroadcastAddr ∧ f.header.ackRequest = true)

/-- What a buffer holds, by its state. -/
structure Authentic (addr : Word) (f : NwkFrame) : Prop where
  carried : f.state.onAir = true → Carried origin c f
  clear : f.state = .txEncrypt ∨ f.state = .securityEncryptPending ∨ f.state = .rxIndicate →
    Clear origin f
  panId : f.state = .txEncrypt ∨ f.state = .securityEncryptPending →
    f.header.macDstPanId = c.panId ∨ f.header.macDstPanId = nwkBroadcastPanId
  secured : f.state = .txEncrypt ∨ f.state = .securityEncryptPending ∨ f.state = .rxDecrypt ∨
    f.state = .securityDecryptPending → f.header.security = true
  mine : f.state = .rxDecrypt ∨ f.state = .securityDecryptPending ∨ f.state = .rxIndicate →
    Mine addr f
  route : f.state = .rxRoute → f.header.macDstPanId ≠ nwkBroadcastPanId

/-- The security module is between the start and the end of its work on a frame. -/
def UnderWay (addr : Word) (s : Security) (f : NwkFrame) : Prop :=
  ∃ g, Authentic origin c addr g ∧
    (g.state = .securityEncryptPending ∨ g.state = .securityDecryptPending) ∧
    (f.state = .securityProcess ∧ s.rest c.aes f = Security.result c.aes g ∨
      f.state = .securityConfirm ∧ (s, f) = Security.result c.aes g)

structure Requested (addr : Word) (params : DataParams) (f : NwkFrame) : Prop where
  ackRequest : f.header.ackRequest = (params.options &&& nwkOptAckRequest != 0)
  security : f.header.security = (params.options &&& nwkOptEnableSecurity != 0)
  linkLocal : f.header.linkLocal = (params.options &&& nwkOptLinkLocal != 0)
  src : f.header.nwkSrcAddr = addr
  dst : f.header.nwkDstAddr = params.dstAddr
  srcEndpoint : f.header.nwkSrcEndpoint = params.srcEndpoint.setWidth 4
  dstEndpoint : f.header.nwkDstEndpoint = params.dstEndpoint.setWidth 4
  payload : f.payload = params.data

structure Replies (addr : Word) (frame ack : NwkFrame) : Prop where
  src : ack.header.nwkSrcAddr = addr
  dst : ack.header.nwkDstAddr = frame.header.nwkSrcAddr
  dstEndpoint : ack.header.nwkDstEndpoint = 0
  payload : ∃ control, ack.payload = ackCommand frame.header.nwkSeq control

/-- What is known of the records of a node. -/
def Attested (asks : DataParams → Prop) (addr : Word) (history : List Record) : Record → Prop
  | .launched _ params frame => asks params ∧ Requested addr params frame
  | .acked frame ack => Clear origin frame ∧ Mine addr frame ∧
      frame.header.macDstPanId ≠ nwkBroadcastPanId ∧
      (frame.header.ackRequest = true ∧ .indicated (Nwk.dataInd frame) true ∈ history ∨
        frame.header.macDstAddr = nwkBroadcastAddr ∧ addr = frame.header.nwkDstAddr) ∧
      Replies addr frame ack
  | .reported frame => frame.header.nwkSrcAddr = addr ∧ frame.header.nwkDstEndpoint = 0 ∧
      ∃ src dst multicast, frame.payload = routeErrorCommand src dst multicast
  | .sent data => ∃ f, Carried origin c f ∧ data = f.data
  | .indicated ind _ => ∃ f, Clear origin f ∧ Mine addr f ∧ ind = Nwk.dataInd f
  | .confirmed _ _ _ => True

/-- A node that is set up as the others are, and has handled nothing but originated messages. -/
structure Nwk.Honest (asks : DataParams → Prop) (p : Platform) (n : Nwk) : Prop where
  panId : n.panId = c.panId
  key : p.aes n.key = c.aes
  queue : ∀ r ∈ n.dataReqQueue, asks r.params
  frame : ∀ i, Authentic origin c n.addr (n.frames i)
  active : ∀ i, n.securityActiveFrame = some i → UnderWay origin c n.addr n.security (n.frames i)
  record : ∀ r ∈ n.history, Attested origin c asks n.addr n.history r

/-- The frames that arrive have originated messages, and the application asks for no more than
it may. -/
def network (asks : DataParams → Prop) : Environment where
  received data := ∃ f, Carried origin c f ∧ data = f.data
  requested := asks

end

variable {origin : NwkFrame → Prop} {c : Setup} {asks : DataParams → Prop} {addr : Word}
  {f g : NwkFrame}

/-! ### Frames -/

/-- What is read of the network part of a header is the same where that part is. -/
theorem nwk_congr {α : Type*} (get : NwkFrameHeader → α) {h h' : NwkFrameHeader}
    (hnwk : h.nwk = h'.nwk) (hget : ∀ h : NwkFrameHeader, get h.nwk = get h) :
    get h = get h' := by
  rw [← hget h, ← hget h', hnwk]

theorem securityVector_congr {h h' : NwkFrameHeader} (hnwk : h.nwk = h'.nwk)
    (hpan : h.macDstPanId = h'.macDstPanId) : securityVector h = securityVector h' := by
  have hfcf := nwk_congr NwkFrameHeader.nwkFcf hnwk fun _ => rfl
  have hseq := nwk_congr NwkFrameHeader.nwkSeq hnwk fun _ => rfl
  have hsrc := nwk_congr NwkFrameHeader.nwkSrcAddr hnwk fun _ => rfl
  have hdst := nwk_congr NwkFrameHeader.nwkDstAddr hnwk fun _ => rfl
  have hsrcEndpoint := nwk_congr NwkFrameHeader.nwkSrcEndpoint hnwk fun _ => rfl
  have hdstEndpoint := nwk_congr NwkFrameHeader.nwkDstEndpoint hnwk fun _ => rfl
  ext1 i
  rw [securityVector, securityVector, hfcf, hseq, hsrc, hdst, hsrcEndpoint, hdstEndpoint, hpan]

theorem Clear.congr (h : Clear origin f) (hnwk : g.header.nwk = f.header.nwk)
    (hpayload : g.payload = f.payload) : Clear origin g := by
  rcases h with ⟨o, ho, honwk, hopayload⟩
  exact ⟨o, ho, hnwk.trans honwk, hpayload.trans hopayload⟩

/-- The form on the air does not change on the way. -/
theorem Carried.congr (h : Carried origin c f) (hnwk : g.header.nwk = f.header.nwk)
    (hpan : g.header.macDstPanId = f.header.macDstPanId) (hpayload : g.payload = f.payload) :
    Carried origin c g := by
  have hsecurity := nwk_congr NwkFrameHeader.security hnwk fun _ => rfl
  constructor
  case panId =>
    rw [hpan]
    exact h.panId
  case clear =>
    intro hg
    exact (h.clear (hsecurity.symm.trans hg)).congr hnwk hpayload
  case enciphered =>
    intro hg
    rcases h.enciphered (hsecurity.symm.trans hg) with ⟨o, ho, honwk, hopayload⟩
    refine ⟨o, ho, hnwk.trans honwk, ?_⟩
    rw [hpayload, hopayload, secureText, secureText, securityVector_congr hnwk hpan]

def FrameState.carrying : FrameState → Bool
  | .rxReceived => true
  | .txWaitDelay => true
  | .txDelay => true
  | .txSend => true
  | .txWaitConf => true
  | .txSent => true
  | .txWaitAck => true
  | .txConfirm => true
  | _ => false

theorem carrying_ne {s t : FrameState} (h : s.carrying = true) (ht : t.carrying = false) :
    s ≠ t := by
  rintro rfl
  rw [h] at ht
  cases ht

theorem onAir_carrying {s : FrameState} (h : s.carrying = true) : s.onAir = true := by
  cases s <;> first | rfl | cases h

theorem Authentic.of_carried (hcarried : Carried origin c f) (hf : f.state.carrying = true) :
    Authentic origin c addr f where
  carried _ := hcarried
  clear := by
    rintro (hs | hs | hs)
    all_goals exact absurd hs (carrying_ne hf rfl)
  panId := by
    rintro (hs | hs)
    all_goals exact absurd hs (carrying_ne hf rfl)
  secured := by
    rintro (hs | hs | hs | hs)
    all_goals exact absurd hs (carrying_ne hf rfl)
  mine := by
    rintro (hs | hs | hs)
    all_goals exact absurd hs (carrying_ne hf rfl)
  route hs := absurd hs (carrying_ne hf rfl)

theorem Authentic.carrying (h : Authentic origin c addr f) (hf : f.state.carrying = true)
    (hg : g.state.carrying = true) (hheader : g.header = f.header)
    (hpayload : g.payload = f.payload) : Authentic origin c addr g := by
  apply Authentic.of_carried _ hg
  apply (h.carried (onAir_carrying hf)).congr _ _ hpayload
  · rw [hheader]
  · rw [hheader]

def FrameState.silent : FrameState → Bool
  | .free => true
  | .rxFinish => true
  | .securityProcess => true
  | .securityWait => true
  | .securityConfirm => true
  | _ => false

theorem Authentic.of_silent (hf : f.state.silent = true) : Authentic origin c addr f := by
  constructor
  all_goals
    intro hs
    cases hstate : f.state <;> simp_all [FrameState.silent, FrameState.onAir]

/-- The frames of a node's own, as `nwkTxFrame` leaves them. -/
theorem Prepared.authentic (hf : Nwk.Prepared c.panId g f) (hg : origin g)
    (hcontrol : g.control &&& txControlRouting = 0) : Authentic origin c addr f := by
  have hclear : Clear origin f := ⟨g, hg, hf.nwk, hf.payload⟩
  have hpan : f.header.macDstPanId = c.panId ∨ f.header.macDstPanId = nwkBroadcastPanId := by
    rw [hf.panId]
    split
    case isTrue => exact .inr rfl
    case isFalse => exact .inl rfl
  have hsecurity := nwk_congr NwkFrameHeader.security hf.nwk fun _ => rfl
  have hstate := hf.state
  rw [if_neg (not_not_intro hcontrol)] at hstate
  cases hsecured : g.header.security with
  | true =>
    rw [if_pos hsecured] at hstate
    constructor
    case carried =>
      intro hair
      rw [hstate] at hair
      cases hair
    case clear => exact fun _ => hclear
    case panId => exact fun _ => hpan
    case secured => exact fun _ => hsecurity.trans hsecured
    case mine => simp [hstate]
    case route => simp [hstate]
  | false =>
    rw [hsecured, if_neg Bool.false_ne_true] at hstate
    apply Authentic.of_carried _ (by rw [hstate]; rfl)
    constructor
    case panId => exact hpan
    case clear => exact fun _ => hclear
    case enciphered =>
      intro htrue
      rw [hsecurity, hsecured] at htrue
      cases htrue

theorem Authentic.passed {n : Nwk} {state : FrameState} (h : Authentic origin c n.addr f)
    (hf : f.state = .rxReceived) (hstate : n.Passed f state) :
    Authentic origin c n.addr { f with state := state } := by
  have hcarried : Carried origin c f := h.carried (by rw [hf]; rfl)
  cases hstate with
  | finish => exact Authentic.of_silent rfl
  | accept hdst hquiet =>
    cases hsecurity : f.header.security with
    | true =>
      have haccept : Nwk.rxAccept f.header = .rxDecrypt := by
        rw [Nwk.rxAccept, hsecurity]
        rfl
      rw [haccept]
      constructor
      case carried => exact fun _ => hcarried.congr rfl rfl rfl
      case clear => simp
      case panId => simp
      case secured => exact fun _ => hsecurity
      case mine => exact fun _ => ⟨hdst, hquiet⟩
      case route => simp
    | false =>
      have haccept : Nwk.rxAccept f.header = .rxIndicate := by
        rw [Nwk.rxAccept, hsecurity]
        rfl
      rw [haccept]
      constructor
      case carried => exact fun hair => absurd hair (by simp [FrameState.onAir])
      case clear => exact fun _ => (hcarried.clear hsecurity).congr rfl rfl
      case panId => simp
      case secured => simp
      case mine => exact fun _ => ⟨hdst, hquiet⟩
      case route => simp
  | route hpan hsrc =>
    constructor
    case carried => exact fun _ => hcarried.congr rfl rfl rfl
    case clear => simp
    case panId => simp
    case secured => simp
    case mine => simp
    case route => exact fun _ => hpan

theorem Authentic.routed (h : Authentic origin c addr f) (hf : f.state = .rxRoute)
    (hg : Nwk.Prepared c.panId { f with confirm := false, control := txControlRouting } g) :
    Authentic origin c addr g := by
  have hcarried : Carried origin c f := h.carried (by rw [hf]; rfl)
  have hpan : f.header.macDstPanId = c.panId := hcarried.panId.resolve_right (h.route hf)
  have hrouting : txControlRouting &&& txControlRouting ≠ 0 := by decide
  have hunicast : ¬ (txControlRouting &&& txControlBroadcastPanId ≠ 0) := by decide
  have hstate : g.state = .txDelay := hg.state.trans (if_pos hrouting)
  apply Authentic.of_carried _ (by rw [hstate]; rfl)
  exact hcarried.congr hg.nwk (hg.panId.trans ((if_neg hunicast).trans hpan.symm)) hg.payload

theorem Authentic.pending (h : Authentic origin c addr f) (encrypt : Bool)
    (hf : f.state = if encrypt then .txEncrypt else .rxDecrypt) :
    Authentic origin c addr { f with
      state := if encrypt then .securityEncryptPending else .securityDecryptPending } := by
  cases encrypt with
  | true =>
    have hf : f.state = .txEncrypt := hf
    constructor
    case carried => exact fun hair => absurd hair (by simp [FrameState.onAir])
    case clear => exact fun _ => (h.clear (.inl hf)).congr rfl rfl
    case panId => exact fun _ => h.panId (.inl hf)
    case secured => exact fun _ => h.secured (.inl hf)
    case mine => simp
    case route => simp
  | false =>
    have hf : f.state = .rxDecrypt := hf
    constructor
    case carried => exact fun _ => (h.carried (by rw [hf]; rfl)).congr rfl rfl rfl
    case clear => simp
    case panId => simp
    case secured => exact fun _ => h.secured (.inr (.inr (.inl hf)))
    case mine =>
      intro _
      have hmine := h.mine (.inl hf)
      exact ⟨hmine.dst, hmine.quiet⟩
    case route => simp

/-! ### The security module -/

/-- The state of a frame that the security module has to do with does not matter to it. -/
theorem UnderWay.start (h : Authentic origin c addr f)
    (hf : f.state = .securityEncryptPending ∨ f.state = .securityDecryptPending) :
    UnderWay origin c addr (Security.start f).1 (Security.start f).2 :=
  ⟨f, h, hf, .inl ⟨rfl, rfl⟩⟩

theorem UnderWay.crypt {s : Security} (h : UnderWay origin c addr s f)
    (hf : f.state = .securityProcess) :
    UnderWay origin c addr (s.encryptReq c.aes { f with state := .securityWait }).1
      (s.encryptReq c.aes { f with state := .securityWait }).2 := by
  rcases h with ⟨o, ho, hstate, ⟨_, hrest⟩ | ⟨hconfirm, _⟩⟩
  · refine ⟨o, ho, hstate, ?_⟩
    change (s.encryptReq c.aes f).2.state = _ ∧ (s.encryptReq c.aes f).1.rest c.aes
      (s.encryptReq c.aes f).2 = _ ∨ (s.encryptReq c.aes f).2.state = _ ∧ s.encryptReq c.aes f = _
    rcases Nat.lt_or_ge 16 s.size with hlong | hshort
    · left
      refine ⟨?_, (Security.rest_long c.aes f hlong).symm.trans hrest⟩
      have hmore : 0 < s.size - min s.size 16 := by omega
      exact if_pos hmore
    · right
      refine ⟨?_, (Security.rest_short c.aes f hshort).symm.trans hrest⟩
      have hdone : ¬ 0 < s.size - min s.size 16 := by omega
      exact if_neg hdone
  · rw [hf] at hconfirm
    cases hconfirm

theorem UnderWay.confirm {s : Security} (h : UnderWay origin c addr s f)
    (hf : f.state = .securityConfirm) :
    Authentic origin c addr { (s.processMic f).2 with
      state := if s.encrypt then .txDelay
        else if (s.processMic f).1 then .rxIndicate else .rxFinish } := by
  rcases h with ⟨o, ho, hstate, ⟨hprocess, _⟩ | ⟨_, hresult⟩⟩
  · rw [hf] at hprocess
    cases hprocess
  rcases hstate with hencrypt | hdecrypt
  · rw [Security.result_encrypt c.aes hencrypt] at hresult
    rcases Prod.mk.inj hresult with ⟨rfl, rfl⟩
    apply Authentic.of_carried _ rfl
    rcases ho.clear (.inr (.inl hencrypt)) with ⟨g, hg, hnwk, hpayload⟩
    have hsecurity := ho.secured (.inr (.inl hencrypt))
    constructor
    case panId => exact ho.panId (.inr hencrypt)
    case clear =>
      intro hfalse
      exact absurd (hsecurity.symm.trans hfalse) (by simp)
    case enciphered =>
      intro _
      refine ⟨g, hg, hnwk, ?_⟩
      rw [← hpayload]
      rfl
  · have hsecurity := ho.secured (.inr (.inr (.inr hdecrypt)))
    have hmine := ho.mine (.inr (.inl hdecrypt))
    rcases (ho.carried (by rw [hdecrypt]; rfl)).enciphered hsecurity with ⟨g, hg, hnwk, hpayload⟩
    rw [Security.result_decrypt c.aes hdecrypt hpayload List.length_ofFn,
      Feedback.stream_stream c.aes (by decide)] at hresult
    rcases Prod.mk.inj hresult with ⟨rfl, rfl⟩
    simp only [Security.processMic, Bool.false_eq_true, if_false, beq_self_eq_true, if_true]
    constructor
    case carried => exact fun hair => absurd hair (by simp [FrameState.onAir])
    case clear => exact fun _ => ⟨g, hg, hnwk, rfl⟩
    case panId => simp
    case secured => simp
    case mine => exact fun _ => ⟨hmine.dst, hmine.quiet⟩
    case route => simp

theorem Attested.mono {history history' : List Record} {r : Record}
    (h : Attested origin c asks addr history r) (hsub : history ⊆ history') :
    Attested origin c asks addr history' r := by
  cases r with
  | acked frame ack =>
    rcases h with ⟨hclear, hmine, hpan, hcause, hack⟩
    refine ⟨hclear, hmine, hpan, ?_, hack⟩
    exact hcause.imp_left fun hrequest => ⟨hrequest.1, hsub hrequest.2⟩
  | launched => exact h
  | reported => exact h
  | sent => exact h
  | indicated => exact h
  | confirmed => exact h

namespace Nwk

variable {p : Platform} {n m : Nwk} {i : FrameSlot}

theorem Move.history_subset {e : Environment} (h : Move p e n m) : n.history ⊆ m.history := by
  cases h with
  | ackWait =>
    rw [txAckWaitTimerHandler_eq]
    exact List.Subset.refl _
  | delayWait =>
    rw [txDelayTimerHandler_eq]
    exact List.Subset.refl _
  | indicate => exact List.subset_cons_self _ _
  | acknowledge => exact List.subset_cons_self _ _
  | report => exact List.subset_cons_self _ _
  | send => exact List.subset_cons_self _ _
  | launch => exact List.subset_cons_self _ _
  | confirm => exact List.subset_cons_self _ _
  | _ => exact List.Subset.refl _

theorem Moves.history_subset {e : Environment} (h : Moves p e n m) : n.history ⊆ m.history := by
  induction h with
  | refl => exact List.Subset.refl _
  | tail _ hmove ih => exact List.Subset.trans ih hmove.history_subset

theorem Honest.recorded (h : n.Honest origin c asks p) {r : Record}
    (hr : Attested origin c asks n.addr (r :: n.history) r) :
    Honest origin c asks p { n with history := r :: n.history } where
  panId := h.panId
  key := h.key
  queue := h.queue
  frame := h.frame
  active := h.active
  record := by
    rw [List.forall_mem_cons]
    exact ⟨hr, fun q hq => (h.record q hq).mono (List.subset_cons_self r n.history)⟩

theorem Honest.setFrame (h : n.Honest origin c asks p) (hi : n.securityActiveFrame ≠ some i)
    (hf : Authentic origin c n.addr f) : (n.setFrame i f).Honest origin c asks p where
  panId := h.panId
  key := h.key
  queue := h.queue
  frame j := by
    by_cases hji : j = i
    · subst hji
      rw [setFrame_self]
      exact hf
    · rw [setFrame_of_ne hji]
      exact h.frame j
  active j hj := by
    have hji : j ≠ i := by
      rintro rfl
      exact hi hj
    rw [setFrame_of_ne hji]
    exact h.active j hj
  record := h.record

/-- What neither frames nor records depend on. -/
theorem Honest.congr (h : n.Honest origin c asks p) (hpanId : m.panId = n.panId)
    (hkey : m.key = n.key) (haddr : m.addr = n.addr) (hqueue : m.dataReqQueue = n.dataReqQueue)
    (hframes : m.frames = n.frames) (hactive : m.securityActiveFrame = n.securityActiveFrame)
    (hsecurity : m.security = n.security) (hhistory : m.history = n.history) :
    m.Honest origin c asks p := by
  constructor
  case panId =>
    rw [hpanId]
    exact h.panId
  case key =>
    rw [hkey]
    exact h.key
  case queue =>
    rw [hqueue]
    exact h.queue
  case frame =>
    rw [hframes, haddr]
    exact h.frame
  case active =>
    rw [hframes, haddr, hactive, hsecurity]
    exact h.active
  case record =>
    rw [hhistory, haddr]
    exact h.record

theorem Sound.inactive (h : n.Sound) (hi : (n.frames i).state = .free ∨
    (n.frames i).state.plain = true) : n.securityActiveFrame ≠ some i :=
  ((h.frame i).unused hi).2

theorem Honest.take (h : n.Honest origin c asks p) (hi : n.securityActiveFrame ≠ some i)
    (hf : Authentic origin c n.addr f) : (n.take i f).Honest origin c asks p :=
  (h.setFrame hi hf).congr rfl rfl rfl rfl rfl rfl rfl rfl

theorem Honest.originate (h : n.Honest origin c asks p) {r : Record}
    (hr : Attested origin c asks n.addr (r :: n.history) r) :
    (n.originate r).Honest origin c asks p :=
  (h.recorded hr).congr rfl rfl rfl rfl rfl rfl rfl rfl

theorem Honest.post (h : n.Honest origin c asks p) {params : DataParams} (hparams : asks params) :
    (n.dataReq params).Honest origin c asks p where
  panId := h.panId
  key := h.key
  queue := by
    rw [dataReq, List.forall_mem_cons]
    exact ⟨hparams, h.queue⟩
  frame := h.frame
  active := h.active
  record := h.record

theorem mem_confirmFirst {queue : List DataReq} {r : DataReq}
    (hr : r ∈ confirmFirst i f queue) : ∃ q ∈ queue, q.params = r.params := by
  induction queue with
  | nil => exact absurd hr List.not_mem_nil
  | cons q queue ih =>
    rw [confirmFirst] at hr
    split at hr
    case isTrue =>
      rcases List.mem_cons.mp hr with rfl | hr
      · exact ⟨q, List.mem_cons_self, rfl⟩
      · exact ⟨r, List.mem_cons_of_mem q hr, rfl⟩
    case isFalse =>
      rcases List.mem_cons.mp hr with rfl | hr
      · exact ⟨r, List.mem_cons_self, rfl⟩
      · rcases ih hr with ⟨q', hq', hparams⟩
        exact ⟨q', List.mem_cons_of_mem q hq', hparams⟩

structure Ticked (f g : NwkFrame) : Prop where
  plain : f.state.plain = true
  before : f.state.carrying = true
  after : g.state.carrying = true
  header : g.header = f.header
  payload : g.payload = f.payload

theorem ackTicked_cases (f : NwkFrame) : ackTicked f = f ∨ Ticked f (ackTicked f) := by
  by_cases hf : f.state = .txWaitAck
  · right
    rw [ackTicked, if_pos hf]
    split
    case isTrue => exact ⟨by rw [hf]; rfl, by rw [hf]; rfl, rfl, rfl, rfl⟩
    case isFalse => exact ⟨by rw [hf]; rfl, by rw [hf]; rfl, by rw [hf]; rfl, rfl, rfl⟩
  · exact .inl (if_neg hf)

theorem delayTicked_cases (f : NwkFrame) : delayTicked f = f ∨ Ticked f (delayTicked f) := by
  by_cases hf : f.state = .txWaitDelay
  · right
    rw [delayTicked, if_pos hf]
    refine ⟨by rw [hf]; rfl, by rw [hf]; rfl, ?_, rfl, rfl⟩
    dsimp only
    split <;> rfl
  · exact .inl (if_neg hf)

theorem Honest.sweep (h : n.Honest origin c asks p) (hn : n.Sound) {rewrite : NwkFrame → NwkFrame}
    (hrewrite : ∀ f, rewrite f = f ∨ Ticked f (rewrite f)) :
    Honest origin c asks p { n with frames := fun i => rewrite (n.frames i) } where
  panId := h.panId
  key := h.key
  queue := h.queue
  frame i := by
    rcases hrewrite (n.frames i) with hsame | hticked
    · dsimp only
      rw [hsame]
      exact h.frame i
    · exact (h.frame i).carrying hticked.before hticked.after hticked.header hticked.payload
  active i hi := by
    rcases hrewrite (n.frames i) with hsame | hticked
    · dsimp only
      rw [hsame]
      exact h.active i hi
    · exact absurd hi (hn.inactive (.inr hticked.plain))
  record := h.record

theorem Honest.ackWait (h : n.Honest origin c asks p) (hn : n.Sound) :
    n.txAckWaitTimerHandler.Honest origin c asks p := by
  rw [txAckWaitTimerHandler_eq]
  exact (h.sweep hn ackTicked_cases).congr rfl rfl rfl rfl rfl rfl rfl rfl

theorem Honest.delayWait (h : n.Honest origin c asks p) (hn : n.Sound) :
    n.txDelayTimerHandler.Honest origin c asks p := by
  rw [txDelayTimerHandler_eq]
  exact (h.sweep hn delayTicked_cases).congr rfl rfl rfl rfl rfl rfl rfl rfl

/-- A frame goes on in its transmission. -/
theorem Honest.transmit (h : n.Honest origin c asks p) (hactive : n.securityActiveFrame ≠ some i)
    (hi : (n.frames i).state.carrying = true) (hf : f.state.carrying = true)
    (hheader : f.header = (n.frames i).header) (hpayload : f.payload = (n.frames i).payload) :
    (n.setFrame i f).Honest origin c asks p :=
  h.setFrame hactive ((h.frame i).carrying hi hf hheader hpayload)

theorem Honest.launched (h : n.Honest origin c asks p) (hn : n.Sound)
    (hi : (n.frames i).state = .free) (hf : Prepared n.panId g f) (hg : origin g)
    (hcontrol : g.control &&& txControlRouting = 0) : (n.take i f).Honest origin c asks p := by
  rw [h.panId] at hf
  exact h.take (hn.inactive (.inl hi)) (Prepared.authentic hf hg hcontrol)

theorem Honest.securityStart (h : n.Honest origin c asks p)
    (hactive : n.securityActiveFrame = none)
    (hi : (n.frames i).state = .securityEncryptPending ∨
      (n.frames i).state = .securityDecryptPending) :
    (n.securityStart i).Honest origin c asks p := by
  have hnone : n.securityActiveFrame ≠ some i := by
    rw [hactive]
    exact Option.some_ne_none i |>.symm
  have hset := h.setFrame (f := (Security.start (n.frames i)).2) hnone (Authentic.of_silent rfl)
  constructor
  case panId => exact h.panId
  case key => exact h.key
  case queue => exact h.queue
  case frame => exact hset.frame
  case active =>
    intro j hj
    rcases Option.some.inj hj with rfl
    change UnderWay origin c n.addr (Security.start (n.frames i)).1
      ((n.setFrame i (Security.start (n.frames i)).2).frames i)
    rw [setFrame_self]
    exact UnderWay.start (h.frame i) hi
  case record => exact h.record

theorem Honest.securityCrypt (h : n.Honest origin c asks p)
    (hactive : n.securityActiveFrame = some i) (hi : (n.frames i).state = .securityProcess) :
    (n.securityCrypt p i).Honest origin c asks p := by
  have hcrypt := (h.active i hactive).crypt hi
  rw [← h.key] at hcrypt
  have hsilent : (n.security.encryptReq (p.aes n.key)
      { n.frames i with state := .securityWait }).2.state.silent = true := by
    rw [Security.encryptReq]
    dsimp only
    split <;> rfl
  constructor
  case panId => exact h.panId
  case key => exact h.key
  case queue => exact h.queue
  case frame =>
    intro j
    rw [Nwk.securityCrypt]
    by_cases hji : j = i
    · subst hji
      rw [setFrame_self]
      exact Authentic.of_silent hsilent
    · rw [setFrame_of_ne hji]
      exact h.frame j
  case active =>
    intro j hj
    rcases Option.some.inj (hactive.symm.trans hj) with rfl
    rw [Nwk.securityCrypt, setFrame_self]
    exact hcrypt
  case record => exact h.record

theorem Honest.securityConf (h : n.Honest origin c asks p)
    (hactive : n.securityActiveFrame = some i) (hi : (n.frames i).state = .securityConfirm) :
    (n.securityConf i).Honest origin c asks p := by
  have hconf := (h.active i hactive).confirm hi
  constructor
  case panId => exact h.panId
  case key => exact h.key
  case queue => exact h.queue
  case frame =>
    intro j
    by_cases hji : j = i
    · subst hji
      exact (congrArg (Authentic origin c n.addr) (Function.update_self ..)).mpr hconf
    · exact (congrArg (Authentic origin c n.addr) (Function.update_of_ne hji _ _)).mpr (h.frame j)
  case active => exact fun j hj => absurd hj (Option.some_ne_none j).symm
  case record => exact h.record

theorem origin_head {r : Record} {history : List Record} {f : NwkFrame}
    (h : ∀ r' ∈ r :: history, ∀ f, r'.origin = some f → origin f) (hr : r.origin = some f) :
    origin f :=
  h r List.mem_cons_self f hr

theorem plain_of {f : NwkFrame} {s : FrameState} (hf : f.state = s) (hs : s.plain = true) :
    f.state.plain = true := by
  rw [hf]
  exact hs

theorem carrying_of {f : NwkFrame} {s : FrameState} (hf : f.state = s) (hs : s.carrying = true) :
    f.state.carrying = true := by
  rw [hf]
  exact hs

theorem Move.honest (hmove : Move p (network origin c asks) n m) (hn : n.Sound)
    (h : n.Honest origin c asks p)
    (horigin : ∀ r ∈ m.history, ∀ f, r.origin = some f → origin f) :
    m.Honest origin c asks p := by
  cases hmove with
  | keep => exact h.congr rfl rfl rfl rfl rfl rfl rfl rfl
  | indicate j taken hj =>
    apply h.recorded
    exact ⟨n.frames j, (h.frame j).clear (by simp [hj]), (h.frame j).mine (by simp [hj]), rfl⟩
  | post params hparams => exact h.post hparams
  | receive i ind hi hind hair =>
    rcases hair with ⟨f, hf, hdata⟩
    refine (h.take (f := ind.frame) (hn.inactive (.inl hi)) ?_).congr rfl rfl rfl rfl rfl rfl rfl
      rfl
    have hheader : ind.frame.header = f.header := by
      simp only [PhyDataInd.frame, hdata, NwkFrame.data]
      exact NwkFrameHeader.ofBytes_toBytes _ _
    have hpayload : ind.frame.payload = f.payload := by
      simp only [PhyDataInd.frame, hdata, NwkFrame.data]
      exact List.drop_left' (NwkFrameHeader.length_toBytes _)
    apply Authentic.of_carried _ rfl
    apply hf.congr _ _ hpayload
    · rw [hheader]
    · rw [hheader]
  | pass j state hj hstate =>
    exact h.setFrame (hn.inactive (.inr (plain_of hj rfl))) ((h.frame j).passed hj hstate)
  | relay i j state f hi hj hstate hpan hf =>
    have hair := (h.frame j).carried (onAir_carrying (carrying_of hj rfl))
    have htake := h.take (hn.inactive (.inl hi))
      (Authentic.of_carried (hair.congr hf.nwk hf.panId hf.payload) (carrying_of hf.state rfl))
    have hframe := take_frames_ne (n := n) (f := f) (slot_ne hi hj (by simp))
    apply htake.setFrame (hn.inactive (.inr (plain_of hj rfl)))
    rw [hframe]
    exact (h.frame j).passed hj hstate
  | finish j hj =>
    exact h.setFrame (hn.inactive (.inr (plain_of hj rfl))) (Authentic.of_silent rfl)
  | acknowledge i j control f hi hj hcause hf =>
    have hack := origin_head horigin rfl
    have htake := h.launched hn hi hf hack BitVec.zero_and
    have hset := htake.setFrame (i := j)
      (f := { (n.take i f).frames j with state := .rxFinish })
      (hn.inactive (.inr (plain_of hj rfl))) (Authentic.of_silent rfl)
    apply hset.originate
    refine ⟨(h.frame j).clear (by simp [hj]), (h.frame j).mine (by simp [hj]), hcause.1, ?_,
      ⟨rfl, rfl, rfl, control, rfl⟩⟩
    exact hcause.2.imp_left fun hrequest => ⟨hrequest.1, List.mem_cons_of_mem _ hrequest.2⟩
  | hear i j hi hj hservice hdata control =>
    exact h.transmit (f := { n.frames i with state := .txConfirm, control := control })
      (hn.inactive (.inr (plain_of hi rfl))) (carrying_of hi rfl) rfl rfl rfl
  | route j f hj hf =>
    rw [h.panId] at hf
    exact h.setFrame (hn.inactive (.inr (plain_of hj rfl))) ((h.frame j).routed hj hf)
  | report i j f hi hj hf =>
    have htake := h.launched hn hi hf (origin_head horigin rfl) BitVec.zero_and
    have hset := htake.setFrame (i := j) (f := { (n.take i f).frames j with state := .free })
      (hn.inactive (.inr (plain_of hj rfl))) (Authentic.of_silent rfl)
    have hfree : ((n.take i f).frameFree j).Honest origin c asks p :=
      hset.congr rfl rfl rfl rfl rfl rfl rfl rfl
    apply hfree.originate
    exact ⟨rfl, rfl, _, _, _, rfl⟩
  | release j hj =>
    have hplain : (n.frames j).state.plain = true := by
      rcases hj with hj | hj | ⟨hj, _⟩ <;> rw [hj] <;> rfl
    exact (h.setFrame (f := { n.frames j with state := .free }) (hn.inactive (.inr hplain))
      (Authentic.of_silent rfl)).congr rfl rfl rfl rfl rfl rfl rfl rfl
  | secure i encrypt hi =>
    have hplain : (n.frames i).state.plain = true := by
      rw [hi]
      cases encrypt <;> rfl
    exact (h.setFrame (hn.inactive (.inr hplain)) ((h.frame i).pending encrypt hi)).congr rfl rfl
      rfl rfl rfl rfl rfl rfl
  | start i hactive hi => exact h.securityStart hactive hi
  | crypt i hactive hi => exact h.securityCrypt hactive hi
  | secured i hactive hi => exact h.securityConf hactive hi
  | delay i hi htimeout =>
    exact (h.transmit (f := { n.frames i with state := .txWaitDelay })
      (hn.inactive (.inr (plain_of hi rfl))) (carrying_of hi rfl) rfl rfl rfl).congr rfl rfl rfl
        rfl rfl rfl rfl rfl
  | ready i hi =>
    exact h.transmit (f := { n.frames i with state := .txSend })
      (hn.inactive (.inr (plain_of hi rfl))) (carrying_of hi rfl) rfl rfl rfl
  | send i hi hactive =>
    have hair := (h.frame i).carried (onAir_carrying (carrying_of hi rfl))
    have hset := h.transmit (f := { n.frames i with state := .txWaitConf })
      (hn.inactive (.inr (plain_of hi rfl))) (carrying_of hi rfl) rfl rfl rfl
    have hsent := hset.recorded (r := .sent (n.frames i).data) ⟨n.frames i, hair, rfl⟩
    exact hsent.congr rfl rfl rfl rfl rfl rfl rfl rfl
  | phyConf i status hactive =>
    have hi := (hn.frame i).phy.mp hactive
    have hinactive : n.securityActiveFrame ≠ some i := by
      rw [ne_eq, (hn.frame i).active, hi]
      simp
    exact (h.transmit (f := { n.frames i with
        state := .txSent, status := txConvertPhyStatus status }) hinactive
      (carrying_of hi rfl) rfl rfl rfl).congr rfl rfl rfl rfl rfl rfl rfl rfl
  | wait i hi hstatus hsrc hack =>
    exact (h.transmit (f := { n.frames i with state := .txWaitAck, timeout := ackWaitTimeout })
      (hn.inactive (.inr (plain_of hi rfl))) (carrying_of hi rfl) rfl rfl rfl).congr rfl rfl rfl
        rfl rfl rfl rfl rfl
  | done i hi hend =>
    exact h.transmit (f := { n.frames i with state := .txConfirm })
      (hn.inactive (.inr (plain_of hi rfl))) (carrying_of hi rfl) rfl rfl rfl
  | ackWait => exact h.ackWait hn
  | delayWait => exact h.delayWait hn
  | txConf i hi hconfirm =>
    have hset := h.setFrame (f := { n.frames i with state := .free })
      (hn.inactive (.inr (plain_of hi rfl))) (Authentic.of_silent rfl)
    refine ⟨h.panId, h.key, ?_, hset.frame, hset.active, h.record⟩
    intro r hr
    rcases mem_confirmFirst hr with ⟨q, hq, hparams⟩
    rw [← hparams]
    exact h.queue q hq
  | launch i before req after f hi hqueue hbefore hreq hf =>
    have hqueue' := h.queue
    rw [hqueue] at hqueue'
    have hreq' := hqueue' req (mem_middle.mpr (.inl rfl))
    have hcontrol : (n.dataReqFrame req.params).control &&& txControlRouting = 0 := by
      simp only [dataReqFrame]
      split <;> rfl
    have htake := h.launched hn hi hf (origin_head horigin rfl) hcontrol
    have hrecord := htake.recorded
      (r := .launched req.number req.params (n.dataReqFrame req.params))
      ⟨hreq', rfl, rfl, rfl, rfl, rfl, rfl, rfl, rfl⟩
    refine ⟨h.panId, h.key, ?_, htake.frame, htake.active, hrecord.record⟩
    intro r hr
    rcases mem_middle.mp hr with rfl | hr
    · exact hreq'
    · exact hqueue' r (mem_middle.mpr (.inr hr))
  | refuse before req after hqueue hreq =>
    have hqueue' := h.queue
    rw [hqueue] at hqueue'
    refine ⟨h.panId, h.key, ?_, h.frame, h.active, h.record⟩
    intro r hr
    rcases mem_middle.mp hr with rfl | hr
    · exact hqueue' req (mem_middle.mpr (.inl rfl))
    · exact hqueue' r (mem_middle.mpr (.inr hr))
  | confirm before req after hqueue hreq =>
    have hqueue' := h.queue
    rw [hqueue] at hqueue'
    have hrecord := h.recorded (r := .confirmed req.number req.status req.control) trivial
    refine ⟨h.panId, h.key, ?_, h.frame, h.active, hrecord.record⟩
    exact fun r hr => hqueue' r (mem_middle.mpr (.inr hr))

end Nwk

end Aquila.Lwm
