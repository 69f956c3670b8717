import Aquila.Bridge.ParseCommand

/-! # Options reported to the PC

The bridge reports its own copies of the PAN id and the channel, and the short address that
the mesh layer keeps. `AquilaMesh::setAddr` tells LWM the new address only, so the reported
one never changes after `begin`.
-/

namespace Aquila.Bridge
open Library Mesh

theorem lowByte_wordOf (low high : Byte) : lowByte (wordOf low high) = low :=
  BitVec.setWidth_append_eq_right

theorem highByte_wordOf (low high : Byte) : highByte (wordOf low high) = high := by
  ext i hi
  rw [highByte, wordOf, BitVec.getElem_setWidth, BitVec.getLsbD_ushiftRight, BitVec.getLsbD_append,
    if_neg (by omega), Nat.add_sub_cancel_left]
  exact BitVec.getLsbD_eq_getElem hi

theorem wordOf_bytes (w : Word) : wordOf (lowByte w) (highByte w) = w := by
  ext i hi
  rw [wordOf, BitVec.getElem_append]
  split
  case isTrue => exact BitVec.getElem_setWidth ..
  case isFalse =>
    rw [highByte, BitVec.getElem_setWidth, BitVec.getLsbD_ushiftRight,
      Nat.add_sub_cancel' (by omega)]
    exact BitVec.getLsbD_eq_getElem hi

/-- The part of an options frame that PAN id, channel and short address take. -/
def optionBytes (pan : Word) (channel : Byte) (addr : Word) : List Byte :=
  [lowByte pan, highByte pan, channel, lowByte addr, highByte addr]

theorem optionBytes_inj {pan pan' addr addr' : Word} {channel channel' : Byte}
    (h : optionBytes pan channel addr = optionBytes pan' channel' addr') :
    pan = pan' ∧ channel = channel' ∧ addr = addr' := by
  simp only [optionBytes, List.cons.injEq, and_true] at h
  rcases h with ⟨hpanLow, hpanHigh, hchannel, haddrLow, haddrHigh⟩
  refine ⟨?_, hchannel, ?_⟩
  · rw [← wordOf_bytes pan, hpanLow, hpanHigh, wordOf_bytes]
  · rw [← wordOf_bytes addr, haddrLow, haddrHigh, wordOf_bytes]

theorem load_optionBytes (data : Memory Byte) :
    data.load 2 5 =
      optionBytes (wordOf (data 2) (data 3)) (data 4) (wordOf (data 5) (data 6)) := by
  simp only [optionBytes, lowByte_wordOf, highByte_wordOf]
  rfl

/-- The options in force: LWM's own variables and the registers of the radio agree on them. -/
structure Network.InForce (n : Network) (pan : Word) (channel : Byte) (shortAddr : Word) :
    Prop where
  panId : n.panId = pan
  panIdReg : n.panIdReg = pan
  phyChannel : n.phyChannel = channel
  channelReg : n.channelReg.setWidth 8 = channel
  addr : n.addr = shortAddr
  shortAddrReg : n.shortAddrReg = shortAddr

namespace AquilaBridge

def sent (s : AquilaBridge) (l : BridgeStep) : List (List Byte) :=
  (s.step l).frames.drop s.frames.length

/-- What a step reports of the options, and the short address that it leaves. -/
structure Reports (s : AquilaBridge) (l : BridgeStep) : Prop where
  frames : ∀ frame ∈ s.sent l, frame.head? = some cmdSetOpt →
    ∃ pan channel addr, frame.drop 2 = optionBytes pan channel addr ∧
      (s.step l).nwk.InForce pan channel addr
  confirmation : ∀ c stack, l = .parseCommand c stack → c.SetsOptions →
    ∃ isProm, s.sent l = [cmdSetOpt :: isProm :: c.data.load 2 5]
  shortAddr : (s.step l).shortAddr = (s.step l).nwk.addr

/-- Options are set to the short address the bridge has, and to channels the radio can take. -/
def Settles (s : AquilaBridge) : BridgeStep → Prop
  | .parseCommand c _ =>
    (c.code = some .getOpt → s.channel.toNat < 32) ∧
      (c.SetsOptions → wordOf (c.data 5) (c.data 6) = s.shortAddr ∧ (c.data 4).toNat < 32)
  | _ => True

/-- The copies of the options agree, but for the channels that the register cuts off. -/
structure Agrees (s : AquilaBridge) : Prop where
  panId : s.nwk.panId = s.pan
  panIdReg : s.nwk.panIdReg = s.pan
  phyChannel : s.nwk.phyChannel = s.channel
  channelReg : s.nwk.channelReg = s.channel.setWidth 5
  shortAddrReg : s.nwk.shortAddrReg = s.nwk.addr

theorem sent_eq {s : AquilaBridge} {l : BridgeStep} {frames : List (List Byte)}
    (h : (s.step l).frames = s.frames ++ frames) : s.sent l = frames := by
  rw [sent, h, List.drop_left]

/-! ### Steps that leave the options alone -/

/-- A step that neither changes nor reports the options. -/
structure Keeps (s s' : AquilaBridge) : Prop where
  pan : s'.pan = s.pan
  channel : s'.channel = s.channel
  shortAddr : s'.shortAddr = s.shortAddr
  nwk : ∃ key, s'.nwk = { s.nwk with key := key }
  frames : ∃ frames, s'.frames = s.frames ++ frames ∧
    ∀ frame ∈ frames, frame.head? ≠ some cmdSetOpt

theorem Keeps.refl (s : AquilaBridge) : Keeps s s :=
  ⟨rfl, rfl, rfl, ⟨_, rfl⟩, [], (List.append_nil _).symm, List.forall_mem_nil _⟩

theorem Keeps.sendComBuffer {s s' : AquilaBridge} (h : Keeps s s') {bytes : List Byte}
    (hbytes : bytes.head? ≠ some cmdSetOpt) : Keeps s (s'.sendComBuffer bytes) := by
  refine ⟨h.pan, h.channel, h.shortAddr, h.nwk, ?_⟩
  rcases h.frames with ⟨frames, hframes, hheads⟩
  refine ⟨frames ++ [bytes], ?_, ?_⟩
  · rw [AquilaBridge.sendComBuffer, hframes, List.append_assoc]
  · rw [List.forall_mem_append, List.forall_mem_singleton]
    exact ⟨hheads, hbytes⟩

theorem Passive.keeps {s s' : AquilaBridge} (h : Passive s s') : Keeps s s' := by
  rcases h.frames with ⟨frames, hframes, hothers⟩
  exact ⟨h.pan, h.channel, h.shortAddr, h.nwk, frames, hframes,
    fun frame hframe => (hothers frame hframe).2⟩

theorem keeps_parseCommand (s : AquilaBridge) (c : Command) (stack : TxBufPacket)
    (hget : c.code ≠ some .getOpt) (hset : ¬ c.SetsOptions) :
    Keeps s (s.parseCommand c stack) := by
  by_cases hsends : c.Sends
  · rw [s.parseCommand_sends c stack hsends]
    exact ⟨rfl, rfl, rfl, ⟨_, rfl⟩, (Keeps.refl s).frames⟩
  · exact (s.passive_parseCommand c stack hsends hget hset).keeps

theorem keeps_confirm (s : AquilaBridge) (status control : Byte) :
    Keeps s (s.confirm status control) := by
  have htx : Keeps s { s with tx := s.tx.nwkDataReqConfirm status control [] } :=
    ⟨rfl, rfl, rfl, ⟨_, rfl⟩, (Keeps.refl s).frames⟩
  rw [confirm, txCallback_eq]
  dsimp only
  split
  case isTrue =>
    have hreply : (reply status control).head? ≠ some cmdSetOpt := by
      rw [reply]
      split
      case isTrue => simp [cmdAck, cmdSetOpt]
      case isFalse => simp [cmdNack, cmdSetOpt]
    have hsent := htx.sendComBuffer hreply
    exact ⟨rfl, rfl, rfl, hsent.nwk, hsent.frames⟩
  case isFalse => exact htx

theorem Keeps.agrees {s s' : AquilaBridge} (h : Keeps s s') (hs : s.Agrees) : s'.Agrees := by
  rcases h.nwk with ⟨key, hnwk⟩
  constructor
  · rw [hnwk, h.pan]
    exact hs.panId
  · rw [hnwk, h.pan]
    exact hs.panIdReg
  · rw [hnwk, h.channel]
    exact hs.phyChannel
  · rw [hnwk, h.channel]
    exact hs.channelReg
  · rw [hnwk]
    exact hs.shortAddrReg

/-! ### Option commands -/

/-- Only the short address can go out of step with what LWM has. -/
theorem Agrees.step {s : AquilaBridge} (h : s.Agrees) (l : BridgeStep) : (s.step l).Agrees := by
  cases l with
  | parseCommand c stack =>
    rw [AquilaBridge.step]
    by_cases hget : c.code = some .getOpt
    · rw [s.parseCommand_getOpt c stack hget]
      exact ⟨h.panId, h.panIdReg, h.phyChannel, h.channelReg, h.shortAddrReg⟩
    by_cases hset : c.SetsOptions
    · rw [s.parseCommand_setOpt c stack hset]
      exact ⟨rfl, rfl, rfl, rfl, rfl⟩
    · exact (s.keeps_parseCommand c stack hget hset).agrees h
  | rxHandler ind => exact (s.passive_rxHandler ind).keeps.agrees h
  | sendNow nwkBusy => exact ⟨h.panId, h.panIdReg, h.phyChannel, h.channelReg, h.shortAddrReg⟩
  | confirm status control => exact (s.keeps_confirm status control).agrees h

theorem setWidth_channelReg (channel : Byte) :
    (channel.setWidth 5).setWidth 8 = channel ↔ channel.toNat < 32 := by
  rw [← BitVec.toNat_inj, BitVec.toNat_setWidth, BitVec.toNat_setWidth]
  omega

/-- An options frame tells what is in force exactly if the two unreliable copies do. -/
theorem Agrees.optionsFrame_iff {s : AquilaBridge} (h : s.Agrees) :
    (∃ pan channel addr, s.optionsFrame.drop 2 = optionBytes pan channel addr ∧
      s.nwk.InForce pan channel addr) ↔ s.shortAddr = s.nwk.addr ∧ s.channel.toNat < 32 := by
  have hframe : s.optionsFrame.drop 2 = optionBytes s.pan s.channel s.shortAddr := rfl
  rw [hframe, ← setWidth_channelReg, ← h.channelReg]
  constructor
  · rintro ⟨pan, channel, addr, hbytes, hforce⟩
    rcases optionBytes_inj hbytes with ⟨_, hchannel, haddr⟩
    exact ⟨haddr.trans hforce.addr.symm, hforce.channelReg.trans hchannel.symm⟩
  · rintro ⟨haddr, hchannel⟩
    exact ⟨s.pan, s.channel, s.shortAddr, rfl, h.panId, h.panIdReg, h.phyChannel, hchannel,
      haddr.symm, h.shortAddrReg.trans haddr.symm⟩

theorem Keeps.reports {s : AquilaBridge} {l : BridgeStep} (h : Keeps s (s.step l))
    (haddr : s.shortAddr = s.nwk.addr)
    (hset : ∀ c stack, l = .parseCommand c stack → ¬ c.SetsOptions) : s.Reports l := by
  constructor
  case frames =>
    rcases h.frames with ⟨frames, hframes, hheads⟩
    rw [sent_eq hframes]
    intro frame hframe hhead
    exact absurd hhead (hheads frame hframe)
  case confirmation =>
    intro c stack hl hsets
    exact absurd hsets (hset c stack hl)
  case shortAddr =>
    rcases h.nwk with ⟨key, hnwk⟩
    rw [h.shortAddr, hnwk]
    exact haddr

/-- A step that ends with an options frame reports well exactly if the frame is right. -/
theorem reports_sendOpt_iff {s t : AquilaBridge} {l : BridgeStep} (hstep : s.step l = t.sendOpt)
    (hframes : t.frames = s.frames) (ht : t.Agrees)
    (hconfirmation : t.shortAddr = t.nwk.addr → ∀ c stack, l = .parseCommand c stack →
      c.SetsOptions → c.data.load 2 5 = optionBytes t.pan t.channel t.shortAddr) :
    s.Reports l ↔ t.shortAddr = t.nwk.addr ∧ t.channel.toNat < 32 := by
  have hsent : s.sent l = [t.optionsFrame] := by
    apply sent_eq
    rw [hstep, ← hframes]
    rfl
  constructor
  · intro hreports
    have hmem : t.optionsFrame ∈ s.sent l := hsent ▸ List.mem_singleton_self _
    have hframe := hreports.frames t.optionsFrame hmem rfl
    rw [hstep] at hframe
    exact ht.optionsFrame_iff.mp hframe
  · intro hright
    constructor
    case frames =>
      rw [hsent, hstep]
      intro frame hframe _
      rw [List.mem_singleton.mp hframe]
      exact ht.optionsFrame_iff.mpr hright
    case confirmation =>
      intro c stack hl hset
      refine ⟨if t.isProm then 1 else 0, ?_⟩
      rw [hsent, hconfirmation hright.1 c stack hl hset]
      rfl
    case shortAddr =>
      rw [hstep]
      exact hright.1

theorem reports_getOpt_iff {s : AquilaBridge} (h : s.Agrees) (haddr : s.shortAddr = s.nwk.addr)
    (c : Command) (stack : TxBufPacket) (hcode : c.code = some .getOpt) :
    s.Reports (.parseCommand c stack) ↔ s.channel.toNat < 32 := by
  have hstep : s.step (.parseCommand c stack) = s.sendOpt := s.parseCommand_getOpt c stack hcode
  apply (reports_sendOpt_iff hstep rfl h ?_).trans (and_iff_right haddr)
  rintro _ _ _ ⟨⟩ hset
  exact absurd (hset.1.symm.trans hcode) (by simp)

theorem reports_setOpt_iff (s : AquilaBridge) (c : Command) (stack : TxBufPacket)
    (hset : c.SetsOptions) :
    s.Reports (.parseCommand c stack) ↔
      wordOf (c.data 5) (c.data 6) = s.shortAddr ∧ (c.data 4).toNat < 32 := by
  have hagrees : (s.withOptions c).Agrees := ⟨rfl, rfl, rfl, rfl, rfl⟩
  have hstep : s.step (.parseCommand c stack) = (s.withOptions c).sendOpt :=
    s.parseCommand_setOpt c stack hset
  apply (reports_sendOpt_iff hstep rfl hagrees ?_).trans (and_congr_left' eq_comm)
  rintro haddr _ _ ⟨⟩ _
  rw [load_optionBytes, haddr]
  rfl

theorem reports_iff {s : AquilaBridge} (h : s.Agrees) (haddr : s.shortAddr = s.nwk.addr)
    (l : BridgeStep) : s.Reports l ↔ s.Settles l := by
  cases l with
  | parseCommand c stack =>
    by_cases hget : c.code = some .getOpt
    · rw [reports_getOpt_iff h haddr c stack hget]
      have hset : ¬ c.SetsOptions := fun hset => absurd (hset.1.symm.trans hget) (by simp)
      exact ⟨fun hchannel => ⟨fun _ => hchannel, fun hsets => absurd hsets hset⟩,
        fun hsettles => hsettles.1 hget⟩
    by_cases hset : c.SetsOptions
    · rw [s.reports_setOpt_iff c stack hset]
      exact ⟨fun hoptions => ⟨fun hcode => absurd hcode hget, fun _ => hoptions⟩,
        fun hsettles => hsettles.2 hset⟩
    · have hkeeps : Keeps s (s.step (.parseCommand c stack)) :=
        s.keeps_parseCommand c stack hget hset
      apply iff_of_true
      · apply hkeeps.reports haddr
        rintro _ _ ⟨⟩
        exact hset
      · exact ⟨fun hcode => absurd hcode hget, fun hsets => absurd hsets hset⟩
  | rxHandler ind =>
    have hkeeps : Keeps s (s.step (.rxHandler ind)) :=
      (s.passive_rxHandler ind).keeps
    exact iff_of_true (hkeeps.reports haddr (by rintro _ _ ⟨⟩)) trivial
  | sendNow nwkBusy =>
    have hkeeps : Keeps s (s.step (.sendNow nwkBusy)) :=
      ⟨rfl, rfl, rfl, ⟨_, rfl⟩, (Keeps.refl s).frames⟩
    exact iff_of_true (hkeeps.reports haddr (by rintro _ _ ⟨⟩)) trivial
  | confirm status control =>
    have hkeeps : Keeps s (s.step (.confirm status control)) := s.keeps_confirm status control
    exact iff_of_true (hkeeps.reports haddr (by rintro _ _ ⟨⟩)) trivial

/-! ### Whole runs -/

theorem begin_agrees (s : AquilaBridge) (addr assigned : Word) (channel : Byte) (pan : Word)
    (euiAddr : Fin 8 → Byte) :
    (s.begin addr assigned channel pan euiAddr).Agrees ∧
      (s.begin addr assigned channel pan euiAddr).shortAddr =
        (s.begin addr assigned channel pan euiAddr).nwk.addr := by
  have hmesh : (s.meshBegin addr assigned).shortAddr = (s.meshBegin addr assigned).nwk.addr ∧
      (s.meshBegin addr assigned).nwk.shortAddrReg = (s.meshBegin addr assigned).nwk.addr := by
    rw [meshBegin]
    split
    case isTrue => exact ⟨rfl, rfl⟩
    case isFalse => exact ⟨rfl, rfl⟩
  exact ⟨⟨rfl, rfl, rfl, rfl, hmesh.2⟩, hmesh.1⟩

/-- After `begin`, the options reported in a run are those in force exactly if every command
that sets options repeats the short address, and no channel exceeds the register. -/
theorem run_reports_iff (nwk : Network) (tx : Tx) (addr assigned : Word) (channel : Byte)
    (pan : Word) (euiAddr : Fin 8 → Byte) (ls : List BridgeStep) :
    (((init nwk tx).begin addr assigned channel pan euiAddr).shortAddr =
        ((init nwk tx).begin addr assigned channel pan euiAddr).nwk.addr ∧
      Guarded step Reports ((init nwk tx).begin addr assigned channel pan euiAddr) ls) ↔
      Guarded step Settles ((init nwk tx).begin addr assigned channel pan euiAddr) ls := by
  have hbegin := (init nwk tx).begin_agrees addr assigned channel pan euiAddr
  apply (and_iff_right hbegin.2).trans
  apply guarded_iff (I := fun t => t.Agrees ∧ t.shortAddr = t.nwk.addr) ?_ ?_ hbegin
  · intro t l ⟨hagrees, haddr⟩
    exact reports_iff hagrees haddr l
  · intro t l ⟨hagrees, _⟩ hreports
    exact ⟨hagrees.step l, hreports.shortAddr⟩

/-- The PC gives the bridge the short address 0x0005. -/
def exampleSetOpt : Command :=
  ⟨(0 : Memory Byte).store 0 [cmdSetOpt, 0, 0x5A, 0xCA, 0x1A, 0x05, 0x00], 7⟩

/-- LWM has the new address, and the confirmation tells the PC the old one. -/
theorem exampleSetOpt_not_reports :
    (exampleBridge.parseCommand exampleSetOpt exampleStack).nwk.addr = 0x0005 ∧
      exampleBridge.sent (.parseCommand exampleSetOpt exampleStack) =
        [[cmdSetOpt, 0, 0x5A, 0xCA, 0x1A, 0xFF, 0x00]] ∧
      ¬ Guarded step Reports exampleBridge [.parseCommand exampleSetOpt exampleStack] := by
  refine ⟨by decide, by decide, ?_⟩
  intro h
  exact absurd h.1.shortAddr (by decide)

end AquilaBridge

end Aquila.Bridge
