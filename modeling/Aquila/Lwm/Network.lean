import Aquila.Lwm.Confirmations
import Aquila.Lwm.Overrun

/-! # A network of nodes

Nodes take their steps in any order. The radio loses frames, repeats and delays them and lets
any node hear them, but it does not alter them, so that what a node receives is what some node
has sent. The nodes have one key and one PAN identifier, and different addresses.
-/

namespace Aquila.Lwm
open Library Bridge Mesh

namespace Nwk

/-- A node of the network after `NWK_Init` and calls that set it up. -/
structure Configured (c : Setup) (p : Platform) (addr : Word) (n : Nwk) : Prop where
  calls : ∃ actions : List Action,
    (∀ a ∈ actions, a.configures = true) ∧ n = run (step p) init actions
  addr : n.addr = addr
  panId : n.panId = c.panId
  key : p.aes n.key = c.aes

/-- What is known of each node, with the frames that the nodes originate until the end. -/
structure Member (origin : NwkFrame → Prop) (c : Setup) (asks : DataParams → Prop)
    (p : Platform) (addr : Word) (n : Nwk) : Prop where
  addr : n.addr = addr
  sound : n.Sound
  honest : n.Honest origin c asks p
  faithful : n.Faithful origin
  numbered : n.Numbered

variable {origin : NwkFrame → Prop} {c : Setup} {asks : DataParams → Prop} {p : Platform}
  {e e' : Environment} {n m : Nwk} {addr : Word}

theorem Action.Within.mono {a : Action} (h : a.Within e)
    (hreceived : ∀ data, e.received data → e'.received data)
    (hrequested : ∀ params, e.requested params → e'.requested params) : a.Within e' := by
  cases a with
  | phyDataInd ind => exact hreceived _ h
  | rxTask answers => exact fun i r hr => hrequested r (h i r hr)
  | dataReqTask requests => exact fun r hr => hrequested r (h r hr)
  | dataReq params => exact hrequested _ h
  | _ => exact h

def SetUp (n : Nwk) : Prop :=
  ∃ addr panId key endpoint,
    n = { init with addr := addr, panId := panId, key := key, endpoint := endpoint } ∧
      ∀ id, endpoint id = some .service → id = 0

theorem init_setUp : init.SetUp := by
  refine ⟨0, 0, fun _ => 0, init.endpoint, rfl, ?_⟩
  intro id hid
  by_contra hne
  simp only [init] at hid
  rw [Function.update_of_ne hne] at hid
  cases hid

theorem SetUp.step (h : n.SetUp) {a : Action} (ha : a.configures = true) : (n.step p a).SetUp := by
  rcases h with ⟨addr, panId, key, endpoint, rfl, hservice⟩
  cases a with
  | setAddr addr' => exact ⟨addr', panId, key, endpoint, rfl, hservice⟩
  | setPanId panId' => exact ⟨addr, panId', key, endpoint, rfl, hservice⟩
  | setSecurityKey key' => exact ⟨addr, panId, key', endpoint, rfl, hservice⟩
  | openEndpoint id =>
    refine ⟨addr, panId, key, Function.update endpoint id (some .application), rfl, ?_⟩
    intro id' hid
    by_cases hsame : id' = id
    · subst hsame
      rw [Function.update_self] at hid
      cases hid
    · rw [Function.update_of_ne hsame] at hid
      exact hservice id' hid
  | _ => cases ha

theorem Configured.member (h : Configured c p addr n) : Member origin c asks p addr n := by
  rcases h with ⟨⟨actions, hactions, rfl⟩, haddr, hpanId, hkey⟩
  have hsound := run_sound p actions
  have hsetUp : (run (step p) init actions).SetUp :=
    run_invariant_of (K := fun a => a.configures = true) (fun _ _ ha h => h.step ha) init_setUp
      actions hactions
  rcases hsetUp with ⟨addr', panId, key, endpoint, heq, hservice⟩
  rw [heq] at haddr hpanId hkey hsound ⊢
  constructor
  case addr => exact haddr
  case sound => exact hsound
  case honest =>
    constructor
    case panId => exact hpanId
    case key => exact hkey
    case queue => exact fun r hr => absurd hr List.not_mem_nil
    case frame => exact fun i => Authentic.of_silent rfl
    case active => exact fun i hi => absurd hi (Option.some_ne_none i).symm
    case record => exact fun r hr => absurd hr List.not_mem_nil
  case faithful =>
    constructor
    case service => exact hservice
    case frame => exact fun i => Served.of_unowed rfl
    case wait => exact fun r hr => absurd hr List.not_mem_nil
    case confirm => exact fun r hr => absurd hr List.not_mem_nil
    case record => exact fun number control hr => absurd hr List.not_mem_nil
  case numbered => exact ⟨rfl, rfl⟩

theorem Move.addr_eq (h : Move p e n m) : m.addr = n.addr := by
  cases h with
  | ackWait => rw [txAckWaitTimerHandler_eq]
  | delayWait => rw [txDelayTimerHandler_eq]
  | _ => rfl

theorem Member.moves (h : Member origin c asks p addr n)
    (hmoves : Moves p (network origin c asks) n m)
    (horigin : ∀ r ∈ m.history, ∀ f, r.origin = some f → origin f) :
    Member origin c asks p addr m := by
  induction hmoves with
  | refl => exact h
  | tail hmoves hmove ih =>
    have hmember := ih fun r hr => horigin r (hmove.history_subset hr)
    constructor
    case addr => exact hmove.addr_eq.trans hmember.addr
    case sound => exact hmove.sound hmember.sound
    case honest => exact hmove.honest hmember.sound hmember.honest horigin
    case faithful => exact hmove.faithful hmember.sound hmember.honest hmember.faithful
    case numbered => exact hmove.numbered hmember.numbered

end Nwk

namespace Network
open Nwk

variable {ι : Type*}

def Sent (s : ι → Nwk) (data : List Byte) : Prop := ∃ k, .sent data ∈ (s k).history

def Originated (s : ι → Nwk) (f : NwkFrame) : Prop := ∃ k, f ∈ (s k).origins

/-- A node receives only what has been sent, and is asked only for what it may be and what fits
into a frame. -/
def Allowed (asks : DataParams → Prop) (s : ι → Nwk) (a : ι × Action) : Prop :=
  a.2.Within ⟨Sent s, fun params => asks params ∧ params.Fits⟩

instance decidableSent [Fintype ι] (s : ι → Nwk) : DecidablePred (Sent s) := fun data =>
  inferInstanceAs (Decidable (∃ k, .sent data ∈ (s k).history))

instance decidableAllowed [Fintype ι] (asks : DataParams → Prop) [DecidablePred asks]
    (s : ι → Nwk) (a : ι × Action) : Decidable (Allowed asks s a) :=
  have := decidableSent s
  have : DecidablePred fun params => asks params ∧ params.Fits :=
    fun _ => inferInstanceAs (Decidable (_ ∧ _))
  inferInstanceAs (Decidable (a.2.Within ⟨Sent s, fun params => asks params ∧ params.Fits⟩))

variable [DecidableEq ι]

def step (p : ι → Platform) (s : ι → Nwk) (a : ι × Action) : ι → Nwk :=
  Function.update s a.1 ((s a.1).step (p a.1) a.2)

/-- The indication of a message to a node, and the request that the message was sent with. -/
structure Conveys (src dst : Word) (params : DataParams) (ind : NwkDataInd) : Prop where
  data : ind.data = params.data
  srcAddr : ind.srcAddr = src
  dstAddr : ind.dstAddr = params.dstAddr
  srcEndpoint : ind.srcEndpoint = params.srcEndpoint.setWidth 4
  dstEndpoint : ind.dstEndpoint = params.dstEndpoint.setWidth 4
  secured : ind.options &&& nwkIndOptSecured ≠ 0 ↔ params.options &&& nwkOptEnableSecurity ≠ 0
  addressed : params.dstAddr = dst ∨ params.dstAddr = nwkBroadcastAddr

variable {origin : NwkFrame → Prop} {c : Setup} {asks : DataParams → Prop} {p : ι → Platform}
  {addr : ι → Word} {s : ι → Nwk} {actions : List (ι × Action)}

omit [DecidableEq ι] in
theorem mem_origins {k : ι} {f : NwkFrame} :
    f ∈ (s k).origins ↔ ∃ r ∈ (s k).history, r.origin = some f :=
  List.mem_filterMap

theorem history_step {a : ι × Action} (ha : Allowed asks s a) (k : ι) :
    (s k).history ⊆ (step p s a k).history := by
  by_cases hk : k = a.1
  · subst hk
    rw [step, Function.update_self]
    exact (step_moves ha (s a.1)).history_subset
  · rw [step, Function.update_of_ne hk]
    exact List.Subset.refl _

theorem originated_step {a : ι × Action} (ha : Allowed asks s a) {f : NwkFrame}
    (h : Originated s f) : Originated (step p s a) f := by
  rcases h with ⟨k, hf⟩
  rcases mem_origins.mp hf with ⟨r, hr, horigin⟩
  exact ⟨k, mem_origins.mpr ⟨r, history_step ha k hr, horigin⟩⟩

theorem step_member {a : ι × Action} (h : ∀ k, Member origin c asks (p k) (addr k) (s k))
    (ha : Allowed asks s a) (horigin : ∀ f, Originated (step p s a) f → origin f) (k : ι) :
    Member origin c asks (p k) (addr k) (step p s a k) := by
  have hwithin : a.2.Within (network origin c asks) := by
    have hreceived (data : List Byte) (hsent : Sent s data) :
        (network origin c asks).received data := by
      rcases hsent with ⟨j, hj⟩
      exact (h j).honest.record _ hj
    exact ha.mono hreceived (fun _ h => h.1)
  by_cases hk : k = a.1
  · subst hk
    have hown : ∀ r ∈ (step p s a a.1).history, ∀ f, r.origin = some f → origin f := by
      intro r hr f hf
      exact horigin f ⟨a.1, mem_origins.mpr ⟨r, hr, hf⟩⟩
    rw [step, Function.update_self] at hown ⊢
    exact (h a.1).moves (step_moves hwithin (s a.1)) hown
  · rw [step, Function.update_of_ne hk]
    exact h k

theorem run_member (hs : ∀ k, Configured c (p k) (addr k) (s k))
    (hrun : Guarded (step p) (Allowed asks) s actions) (k : ι) :
    Member (Originated (run (step p) s actions)) c asks (p k) (addr k)
      (run (step p) s actions k) := by
  refine run_guarded_of_end
    (I := fun t => ∀ k, Member (Originated (run (step p) s actions)) c asks (p k) (addr k) (t k))
    (C := fun t => ∀ f, Originated t f → Originated (run (step p) s actions) f)
    ?_ (fun t a h ha horigin => step_member h ha horigin) (fun k => (hs k).member) hrun
    (fun _ h => h) k
  exact fun t a ha horigin f hf => horigin f (originated_step ha hf)

/-- What the nodes are asked for fits, and so does what they send to each other. -/
theorem step_inside {a : ι × Action} (h : ∀ k, (s k).Sound ∧ (s k).Inside)
    (ha : Allowed asks s a) (k : ι) : (step p s a k).Sound ∧ (step p s a k).Inside := by
  have hfits : Environment.Fits ⟨Sent s, fun params => asks params ∧ params.Fits⟩ := by
    constructor
    case received =>
      rintro data ⟨j, hj⟩
      exact (h j).2.sent data hj
    case requested => exact fun _ h => h.2
  by_cases hk : k = a.1
  · subst hk
    rw [step, Function.update_self]
    exact ⟨(h a.1).1.step a.2, Moves.inside hfits (step_moves ha (s a.1)) (h a.1).1 (h a.1).2⟩
  · rw [step, Function.update_of_ne hk]
    exact h k

theorem origin_src {n : Nwk} {addr : Word} {p : Platform} {f : NwkFrame}
    (h : Member origin c asks p addr n) {r : Record} (hr : r ∈ n.history)
    (hf : r.origin = some f) : f.header.nwkSrcAddr = addr := by
  have hattested := h.honest.record r hr
  rw [← h.addr]
  cases r with
  | launched number params frame =>
    rcases Option.some.inj hf with rfl
    exact hattested.2.src
  | acked frame ack =>
    rcases Option.some.inj hf with rfl
    exact hattested.2.2.2.2.src
  | reported frame =>
    rcases Option.some.inj hf with rfl
    exact hattested.1
  | sent => cases hf
  | indicated => cases hf
  | confirmed => cases hf

theorem secured_indOptions (h : NwkFrameHeader) :
    indOptions h &&& nwkIndOptSecured ≠ 0 ↔ h.security = true := by
  have hbits (a b c d e f g : Bool) :
      ((bif a then 0x01#8 else 0) ||| (bif b then 0x02#8 else 0) ||| (bif c then 0x20#8 else 0) |||
        (bif d then 0x40#8 else 0) ||| (bif e then 0x04#8 else 0) ||| (bif f then 0x08#8 else 0) |||
        (bif g then 0x10#8 else 0)) &&& 0x02#8 ≠ 0 ↔ b = true := by
    revert a b c d e f g
    decide
  have hmatch := hbits h.ackRequest h.security h.linkLocal h.multicast
    (h.nwkDstAddr = nwkBroadcastAddr) (h.nwkSrcAddr = h.macSrcAddr)
    (h.macDstPanId = nwkBroadcastPanId)
  simp only [Bool.cond_eq_ite, decide_eq_true_eq] at hmatch
  exact hmatch

/-- A frame with the message of a request, at a node that it is for. -/
theorem conveys_of_requested {src dst : Word} {params : DataParams} {f g : NwkFrame}
    (hg : Requested src params g) (hnwk : f.header.nwk = g.header.nwk)
    (hpayload : f.payload = g.payload) (hmine : Mine dst f) :
    Conveys src dst params (dataInd f) := by
  have hdst := (nwk_congr NwkFrameHeader.nwkDstAddr hnwk fun _ => rfl).trans hg.dst
  constructor
  case data => exact hpayload.trans hg.payload
  case srcAddr => exact (nwk_congr NwkFrameHeader.nwkSrcAddr hnwk fun _ => rfl).trans hg.src
  case dstAddr => exact hdst
  case srcEndpoint =>
    exact (nwk_congr NwkFrameHeader.nwkSrcEndpoint hnwk fun _ => rfl).trans hg.srcEndpoint
  case dstEndpoint =>
    exact (nwk_congr NwkFrameHeader.nwkDstEndpoint hnwk fun _ => rfl).trans hg.dstEndpoint
  case secured =>
    have hsecurity := (nwk_congr NwkFrameHeader.security hnwk fun _ => rfl).trans hg.security
    apply (secured_indOptions f.header).trans
    rw [hsecurity, bne_iff_ne]
  case addressed =>
    rw [← hdst]
    exact hmine.dst.imp_left Eq.symm

/-- What a node hands to its application is a message that some node was asked to send, as it
was and to this node or to all, secured exactly if it was to be. -/
theorem run_indicated (hs : ∀ k, Configured c (p k) (addr k) (s k))
    (hrun : Guarded (step p) (Allowed asks) s actions) {k : ι} {ind : NwkDataInd} {taken : Bool}
    (hind : .indicated ind taken ∈ (run (step p) s actions k).history)
    (hend : ind.dstEndpoint ≠ 0) :
    ∃ j number params f, .launched number params f ∈ (run (step p) s actions j).history ∧
      Conveys (addr j) (addr k) params ind := by
  have hmember := run_member hs hrun
  generalize run (step p) s actions = t at hmember hind ⊢
  rcases (hmember k).honest.record _ hind with ⟨f, ⟨g, ⟨j, hg⟩, hnwk, hpayload⟩, hmine, rfl⟩
  have hendpoint : f.header.nwkDstEndpoint = g.header.nwkDstEndpoint :=
    nwk_congr NwkFrameHeader.nwkDstEndpoint hnwk fun _ => rfl
  have hservice : g.header.nwkDstEndpoint ≠ 0 := by
    rw [← hendpoint]
    exact hend
  rw [(hmember k).addr] at hmine
  rcases mem_origins.mp hg with ⟨r, hr, horigin⟩
  have hattested := (hmember j).honest.record r hr
  rw [(hmember j).addr] at hattested
  cases r with
  | launched number params frame =>
    rcases Option.some.inj horigin with rfl
    exact ⟨j, number, params, _, hr, conveys_of_requested hattested.2 hnwk hpayload hmine⟩
  | acked frame ack =>
    rcases Option.some.inj horigin with rfl
    exact absurd hattested.2.2.2.2.dstEndpoint hservice
  | reported frame =>
    rcases Option.some.inj horigin with rfl
    exact absurd hattested.2.1 hservice
  | sent => cases horigin
  | indicated => cases horigin
  | confirmed => cases horigin

def exampleSetup : Setup where
  aes block := block
  panId := 5

def exampleNode (k : Fin 2) : Nwk :=
  run (Nwk.step examplePlatform) init
    [.setAddr (BitVec.ofNat 16 (k + 1)), .setPanId 5, .openEndpoint 3]

def exampleAnswer : FrameSlot → Answer := fun _ => { taken := true, control := 9, requests := [] }

def exampleMessage : List (Fin 2 × Action) :=
  [(0, .dataReq exampleParams), (0, .dataReqTask []), (0, .txTask), (0, .delayTimer), (0, .txTask),
    (0, .phyDataConf .success), (0, .txTask)]

def exampleReply : List (Fin 2 × Action) :=
  [(1, .phyDataInd ⟨[65, 136, 1, 5, 0, 255, 255, 1, 0, 1, 1, 1, 0, 2, 0, 51, 7], 200, 60⟩),
    (1, .rxTask exampleAnswer), (1, .rxTask exampleAnswer), (1, .txTask), (1, .txTask)]

def exampleEnd : List (Fin 2 × Action) :=
  [(0, .phyDataInd ⟨[97, 136, 1, 5, 0, 1, 0, 2, 0, 0, 1, 2, 0, 1, 0, 0, 0, 1, 9], 200, 60⟩),
    (0, .rxTask exampleAnswer), (0, .rxTask exampleAnswer), (0, .txTask), (0, .dataReqTask [])]

def exampleExchange : List (Fin 2 × Action) := exampleMessage ++ exampleReply ++ exampleEnd

theorem exampleNode_configured (k : Fin 2) :
    Configured exampleSetup examplePlatform (BitVec.ofNat 16 (k + 1)) (exampleNode k) where
  calls := by
    refine ⟨_, ?_, rfl⟩
    simp [Action.configures]
  addr := rfl
  panId := rfl
  key := rfl

theorem exampleExchange_allowed :
    Guarded (step fun _ => examplePlatform)
      (Allowed fun params => params.dstEndpoint.setWidth 4 ≠ (0 : Nibble)) exampleNode
      exampleExchange := by
  decide +kernel

theorem exampleExchange_taken :
    .indicated ⟨1, 2, 3, 3, 9, [7], 200, 60⟩ true ∈
      (run (step fun _ => examplePlatform) exampleNode exampleExchange 1).history := by
  decide +kernel

theorem exampleExchange_confirmed :
    .confirmed 0 .success 9 ∈
      (run (step fun _ => examplePlatform) exampleNode exampleExchange 0).history := by
  decide +kernel

theorem exampleExchange_indicated :
    ∃ j number params f, .launched number params f ∈
        (run (step fun _ => examplePlatform) exampleNode exampleExchange j).history ∧
      Conveys (BitVec.ofNat 16 ((j : Fin 2) + 1)) (BitVec.ofNat 16 ((1 : Fin 2) + 1)) params
        ⟨1, 2, 3, 3, 9, [7], 200, 60⟩ :=
  run_indicated (k := 1) exampleNode_configured exampleExchange_allowed exampleExchange_taken
    (by decide)

/-- No node of the network overruns a buffer. -/
theorem network_inside (hs : ∀ k, Configured c (p k) (addr k) (s k))
    (hrun : Guarded (step p) (Allowed asks) s actions) (k : ι) :
    (run (step p) s actions k).overrun = false := by
  have hstart (k : ι) : (s k).Sound ∧ (s k).Inside := by
    rcases (hs k).calls with ⟨calls, hcalls, heq⟩
    rw [heq]
    exact run_sound_inside (p k) fun a ha => .inl (hcalls a ha)
  have hend := run_guarded (I := fun t : ι → Nwk => ∀ k, (t k).Sound ∧ (t k).Inside)
    (fun t a h ha => step_inside h ha) hstart hrun
  exact (hend k).2.overrun

theorem exampleExchange_inside :
    (run (step fun _ => examplePlatform) exampleNode exampleExchange 1).overrun = false :=
  network_inside exampleNode_configured exampleExchange_allowed 1

/-- A request is confirmed with success, if it asks for an acknowledgement, only if its message
has reached the node it is for, and has been taken there or has come as a broadcast. -/
theorem run_acknowledged (hs : ∀ k, Configured c (p k) (addr k) (s k))
    (haddr : Function.Injective addr) (hbroadcast : ∀ k, addr k ≠ nwkBroadcastAddr)
    (hrun : Guarded (step p) (Allowed fun params => params.dstEndpoint.setWidth 4 ≠ (0 : Nibble)) s
      actions) {k : ι} {number : ℕ} {control : Byte}
    (hconfirmed : .confirmed number .success control ∈ (run (step p) s actions k).history)
    (hcount : (run (step p) s actions k).origins.length ≤ 256) :
    ∃ params g, .launched number params g ∈ (run (step p) s actions k).history ∧
      (params.options &&& nwkOptAckRequest ≠ 0 → ∃ j frame ack, addr j = params.dstAddr ∧
        .acked frame ack ∈ (run (step p) s actions j).history ∧
        Conveys (addr k) (addr j) params (dataInd frame) ∧
        (.indicated (dataInd frame) true ∈ (run (step p) s actions j).history ∨
          frame.header.macDstAddr = nwkBroadcastAddr)) := by
  have hmember := run_member hs hrun
  generalize run (step p) s actions = t at hmember hconfirmed hcount ⊢
  rcases (hmember k).faithful.record number control hconfirmed with ⟨params, g, hg, hheard⟩
  refine ⟨params, g, hg, ?_⟩
  intro hrequest
  have hrequested := ((hmember k).honest.record _ hg).2
  rw [(hmember k).addr] at hrequested
  have hack : g.header.ackRequest = true := by
    rw [hrequested.ackRequest, bne_iff_ne]
    exact hrequest
  rcases hheard hack with ⟨f, control', ⟨a, ⟨j, ha⟩, hnwk, hpayload⟩, hmine, hservice, hcommand⟩
  rcases mem_origins.mp ha with ⟨r, hr, horigin⟩
  have hattested := (hmember j).honest.record r hr
  rw [(hmember k).addr] at hmine
  rw [(hmember j).addr] at hattested
  -- The command that has been heard is an acknowledgement, for nobody asks for another.
  cases r with
  | launched number' params' frame =>
    rcases Option.some.inj horigin with rfl
    have hendpoint := nwk_congr NwkFrameHeader.nwkDstEndpoint hnwk fun _ => rfl
    rw [hservice, hattested.2.dstEndpoint] at hendpoint
    exact absurd hendpoint.symm hattested.1
  | reported frame =>
    rcases Option.some.inj horigin with rfl
    rcases hattested.2.2 with ⟨src, dst, multicast, herror⟩
    rw [hcommand, herror, ackCommand, routeErrorCommand] at hpayload
    exact absurd (List.cons.inj hpayload).1 (by decide)
  | sent => cases horigin
  | indicated => cases horigin
  | confirmed => cases horigin
  | acked frame ack =>
    rcases Option.some.inj horigin with rfl
    rcases hattested with ⟨⟨g', ⟨i, hg'⟩, hframe, hframePayload⟩, hframeMine, hpan, hcause, hreply⟩
    rcases mem_origins.mp hg' with ⟨r', hr', horigin'⟩
    -- It is for the node that has sent the frame it acknowledges, so that is this one.
    have hsrc : frame.header.nwkSrcAddr = addr i :=
      (nwk_congr NwkFrameHeader.nwkSrcAddr hframe fun _ => rfl).trans
        (origin_src (hmember i) hr' horigin')
    have hdst : f.header.nwkDstAddr = addr i := by
      rw [nwk_congr NwkFrameHeader.nwkDstAddr hnwk fun _ => rfl, hreply.dst, hsrc]
    have hki : k = i := by
      rcases hmine.dst with hmine | hmine
      · exact haddr (hmine.trans hdst)
      · exact absurd (hdst.symm.trans hmine) (hbroadcast i)
    subst hki
    have hseq : g'.header.nwkSeq = g.header.nwkSeq := by
      rcases hreply.payload with ⟨control'', hackPayload⟩
      rw [hcommand, hackPayload, ackCommand, ackCommand] at hpayload
      rw [← nwk_congr NwkFrameHeader.nwkSeq hframe fun _ => rfl]
      exact (List.cons.inj (List.cons.inj hpayload).2).1.symm
    have hgOrigin : g ∈ (t k).origins := mem_origins.mpr ⟨_, hg, rfl⟩
    rcases (hmember k).numbered.unique hcount hg' hgOrigin hseq with rfl
    have hframeAck : frame.header.ackRequest = true :=
      (nwk_congr NwkFrameHeader.ackRequest hframe fun _ => rfl).trans hack
    have hframeDst : frame.header.nwkDstAddr = params.dstAddr :=
      (nwk_congr NwkFrameHeader.nwkDstAddr hframe fun _ => rfl).trans hrequested.dst
    have hj : addr j = params.dstAddr := by
      rw [← hframeDst]
      rcases hframeMine.dst with hown | hall
      · exact hown
      · exact absurd ⟨hall, hframeAck⟩ (hframeMine.quiet hpan)
    have hconveys := conveys_of_requested hrequested hframe hframePayload hframeMine
    refine ⟨j, frame, _, hj, hr, hconveys, ?_⟩
    exact hcause.imp And.right And.left

theorem exampleExchange_acknowledged :
    ∃ params g, .launched 0 params g ∈
        (run (step fun _ => examplePlatform) exampleNode exampleExchange 0).history ∧
      (params.options &&& nwkOptAckRequest ≠ 0 → ∃ j frame ack,
        BitVec.ofNat 16 ((j : Fin 2) + 1) = params.dstAddr ∧
        .acked frame ack ∈
          (run (step fun _ => examplePlatform) exampleNode exampleExchange j).history ∧
        Conveys (BitVec.ofNat 16 ((0 : Fin 2) + 1)) (BitVec.ofNat 16 (j + 1)) params
          (dataInd frame) ∧
        (.indicated (dataInd frame) true ∈
            (run (step fun _ => examplePlatform) exampleNode exampleExchange j).history ∨
          frame.header.macDstAddr = nwkBroadcastAddr)) :=
  run_acknowledged (k := 0) exampleNode_configured (by decide) (by decide) exampleExchange_allowed
    exampleExchange_confirmed (by decide +kernel)

end Network

end Aquila.Lwm
