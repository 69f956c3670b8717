import Aquila.Library.Table
import Aquila.Lwm.Moves
import Aquila.Lwm.Requests

/-! # Buffers, requests and the lock

What holds in every state that the stack can reach. The lock counts the buffers in use, the
requests in the queue and the transmission under way, so a node is busy exactly while it holds
something; and a request that has been made is in the queue until it is confirmed, once.
-/

namespace Aquila.Lwm
open Library Bridge Mesh

namespace FrameState

/-- The states in which `nwkSecurityActiveFrames` counts a frame. -/
def secured : FrameState → Bool
  | .securityEncryptPending => true
  | .securityDecryptPending => true
  | .securityProcess => true
  | .securityWait => true
  | .securityConfirm => true
  | _ => false

/-- The states in which no other variable points to a frame. -/
def plain (s : FrameState) : Bool := s != .free && s != .txWaitConf && !s.secured

/-- The states of a frame on its way out, but for those in which it may be on its way in too. -/
def outgoing : FrameState → Bool
  | .txEncrypt => true
  | .txWaitDelay => true
  | .txDelay => true
  | .txSend => true
  | .txWaitConf => true
  | .txSent => true
  | .txWaitAck => true
  | .txConfirm => true
  | .securityEncryptPending => true
  | _ => false

end FrameState

def NwkFrame.used (f : NwkFrame) : ℕ := if f.state = .free then 0 else 1

def NwkFrame.securing (f : NwkFrame) : ℕ := if f.state.secured then 1 else 0

def Record.confirmation : Record → Option ℕ
  | .confirmed number _ _ => some number
  | _ => none

namespace Nwk

/-- What is held: buffers, requests and the radio. -/
def held (n : Nwk) : ℕ :=
  total NwkFrame.used n.frames + n.dataReqQueue.length + n.txPhyActiveFrame.toList.length

def securing (n : Nwk) : ℕ := total NwkFrame.securing n.frames

/-- What the other variables say about a buffer agrees with its state. -/
structure FrameSound (i : FrameSlot) (f : NwkFrame) (txActive securityActive : Option FrameSlot)
    (encrypt ackTimer delayTimer : Bool) : Prop where
  phy : txActive = some i ↔ f.state = .txWaitConf
  active : securityActive = some i ↔ f.state = .securityProcess ∨ f.state = .securityConfirm
  wait : f.state ≠ .securityWait
  ack : f.state = .txWaitAck → ackTimer = true ∧ f.timeout ≠ 0
  delay : f.state = .txWaitDelay → delayTimer = true ∧ f.timeout ≠ 0
  outgoing : f.Owed → f.state.outgoing = true ∨ securityActive = some i ∧ encrypt = true

structure Sound (n : Nwk) : Prop where
  lock : n.lock = BitVec.ofNat 16 n.held
  securing : n.securityActiveFrames = BitVec.ofNat 8 n.securing
  frame : ∀ i, FrameSound i (n.frames i) n.txPhyActiveFrame n.securityActiveFrame
    n.security.encrypt n.txAckWaitTimer n.txDelayTimer
  owned : Owned n.frames n.dataReqQueue
  numbers : (n.dataReqQueue.map DataReq.number ++ n.history.filterMap Record.confirmation).Perm
    (List.range n.requests)

theorem init_sound : init.Sound where
  lock := rfl
  securing := rfl
  frame i := by
    constructor
    case phy => exact iff_of_false (by simp [init]) (by simp [init, NwkFrame.cleared])
    case active => exact iff_of_false (by simp [init]) (by simp [init, NwkFrame.cleared])
    case wait => simp [init, NwkFrame.cleared]
    case ack => simp [init, NwkFrame.cleared]
    case delay => simp [init, NwkFrame.cleared]
    case outgoing => exact fun howed => absurd rfl howed.1
  owned := by
    constructor
    case frame => exact fun r hr => absurd hr List.not_mem_nil
    case first => exact List.Pairwise.nil
    case request => exact fun i howed => absurd rfl howed.1
  numbers := List.Perm.refl _

variable {p : Platform} {e : Environment} {n m : Nwk} {i : FrameSlot} {f : NwkFrame}

/-! ### One buffer changes -/

theorem ofNat_succ {w k : ℕ} {b : BitVec w} (h : b = BitVec.ofNat w k) :
    b + 1 = BitVec.ofNat w (k + 1) := by
  rw [h, BitVec.ofNat_add]
  rfl

theorem ofNat_pred {w k : ℕ} {b : BitVec w} (h : b = BitVec.ofNat w (k + 1)) :
    b - 1 = BitVec.ofNat w k := by
  rw [h, BitVec.ofNat_add]
  exact BitVec.add_sub_cancel _ _

theorem held_update (hframes : m.frames = Function.update n.frames i f)
    (hqueue : m.dataReqQueue.length = n.dataReqQueue.length)
    (hphy : m.txPhyActiveFrame = n.txPhyActiveFrame) :
    m.held + (n.frames i).used = n.held + f.used := by
  have hused := total_update NwkFrame.used n.frames i f
  rw [held, held, hframes, hqueue, hphy]
  omega

theorem securing_update (hframes : m.frames = Function.update n.frames i f) :
    m.securing + (n.frames i).securing = n.securing + f.securing := by
  rw [Nwk.securing, Nwk.securing, hframes]
  exact total_update NwkFrame.securing n.frames i f

theorem Sound.lock_succ (h : n.Sound) (hlock : m.lock = n.lock + 1) (hheld : m.held = n.held + 1) :
    m.lock = BitVec.ofNat 16 m.held := by
  rw [hlock, hheld]
  exact ofNat_succ h.lock

theorem Sound.lock_pred (h : n.Sound) (hlock : m.lock = n.lock - 1) (hheld : m.held + 1 = n.held) :
    m.lock = BitVec.ofNat 16 m.held := by
  rw [hlock]
  apply ofNat_pred
  rw [hheld]
  exact h.lock

theorem Sound.lock_same (h : n.Sound) (hlock : m.lock = n.lock) (hheld : m.held = n.held) :
    m.lock = BitVec.ofNat 16 m.held := by
  rw [hlock, hheld]
  exact h.lock

/-- What is so of a buffer stays so while the variables change for others only. -/
theorem FrameSound.other {phy phy' active active' : Option FrameSlot}
    {encrypt encrypt' ack ack' delay delay' : Bool}
    (h : FrameSound i f phy active encrypt ack delay) (hphy : phy' = some i ↔ phy = some i)
    (hactive : active' = some i ↔ active = some i)
    (hencrypt : active = some i → encrypt' = encrypt) (hack : ack = true → ack' = true)
    (hdelay : delay = true → delay' = true) : FrameSound i f phy' active' encrypt' ack' delay' where
  phy := hphy.trans h.phy
  active := hactive.trans h.active
  wait := h.wait
  ack hstate := ⟨hack (h.ack hstate).1, (h.ack hstate).2⟩
  delay hstate := ⟨hdelay (h.delay hstate).1, (h.delay hstate).2⟩
  outgoing howed := by
    rcases h.outgoing howed with hout | ⟨hsome, htrue⟩
    · exact .inl hout
    · exact .inr ⟨hactive.mpr hsome, (hencrypt hsome).trans htrue⟩

theorem plain_ne {s t : FrameState} (h : s.plain = true) (ht : t.plain = false) : s ≠ t := by
  rintro rfl
  rw [h] at ht
  cases ht

structure Fit (f : NwkFrame) (ackTimer delayTimer : Bool) : Prop where
  plain : f.state.plain = true
  ack : f.state = .txWaitAck → ackTimer = true ∧ f.timeout ≠ 0
  delay : f.state = .txWaitDelay → delayTimer = true ∧ f.timeout ≠ 0
  outgoing : f.confirm = true → f.state.outgoing = true

theorem Fit.frameSound {phy active : Option FrameSlot} {encrypt ack delay : Bool}
    (hf : Fit f ack delay) (hphy : phy ≠ some i) (hactive : active ≠ some i) :
    FrameSound i f phy active encrypt ack delay where
  phy := iff_of_false hphy (plain_ne hf.plain rfl)
  active := by
    apply iff_of_false hactive
    rw [not_or]
    exact ⟨plain_ne hf.plain rfl, plain_ne hf.plain rfl⟩
  wait := plain_ne hf.plain rfl
  ack := hf.ack
  delay := hf.delay
  outgoing howed := .inl (hf.outgoing howed.2)

theorem FrameSound.unused {phy active : Option FrameSlot} {encrypt ack delay : Bool}
    (h : FrameSound i f phy active encrypt ack delay)
    (hi : f.state = .free ∨ f.state.plain = true) : phy ≠ some i ∧ active ≠ some i := by
  rw [ne_eq, ne_eq, h.phy, h.active, not_or]
  rcases hi with hi | hi
  · rw [hi]
    simp
  · exact ⟨plain_ne hi rfl, plain_ne hi rfl, plain_ne hi rfl⟩

theorem used_one (h : f.state ≠ .free) : f.used = 1 := if_neg h

theorem used_plain (h : f.state.plain = true) : f.used = 1 := used_one (plain_ne h rfl)

theorem used_free (h : f.state = .free) : f.used = 0 := if_pos h

theorem securing_plain (h : f.state = .free ∨ f.state.plain = true) : f.securing = 0 := by
  rw [NwkFrame.securing]
  cases hs : f.state <;> simp_all [FrameState.plain, FrameState.secured]

theorem securing_one (h : f.state.secured = true) : f.securing = 1 := if_pos h

theorem owed_plain {g : NwkFrame} (hf : f.state.plain = true) (hg : g.state.plain = true)
    (hconfirm : f.confirm = g.confirm) : f.Owed ↔ g.Owed := by
  rw [NwkFrame.Owed, NwkFrame.Owed, hconfirm, and_congr_left_iff]
  exact fun _ => iff_of_true (plain_ne hf rfl) (plain_ne hg rfl)

/-- All but one of the buffers stay as they are. -/
theorem Sound.frame_update (h : n.Sound) {phy active : Option FrameSlot}
    {encrypt ack delay : Bool}
    (hphy : ∀ j, j ≠ i → (phy = some j ↔ n.txPhyActiveFrame = some j))
    (hactive : ∀ j, j ≠ i → (active = some j ↔ n.securityActiveFrame = some j))
    (hencrypt : ∀ j, j ≠ i → n.securityActiveFrame = some j → encrypt = n.security.encrypt)
    (hack : n.txAckWaitTimer = true → ack = true) (hdelay : n.txDelayTimer = true → delay = true)
    (hi : FrameSound i f phy active encrypt ack delay) (j : FrameSlot) :
    FrameSound j (Function.update n.frames i f j) phy active encrypt ack delay := by
  by_cases hji : j = i
  · subst hji
    rw [Function.update_self]
    exact hi
  · rw [Function.update_of_ne hji]
    exact (h.frame j).other (hphy j hji) (hactive j hji) (hencrypt j hji) hack hdelay

theorem Sound.setFrame (h : n.Sound) (hi : (n.frames i).state.plain = true)
    (hf : Fit f n.txAckWaitTimer n.txDelayTimer) (hconfirm : f.confirm = (n.frames i).confirm) :
    (n.setFrame i f).Sound where
  lock := by
    have hheld := held_update (m := n.setFrame i f) rfl rfl rfl
    rw [used_plain hf.plain, used_plain hi] at hheld
    exact h.lock_same (m := n.setFrame i f) rfl (Nat.add_right_cancel hheld)
  securing := by
    have hsecuring := securing_update (m := n.setFrame i f) rfl
    rw [securing_plain (.inr hf.plain), securing_plain (.inr hi)] at hsecuring
    rw [Nat.add_right_cancel hsecuring]
    exact h.securing
  frame := by
    have hunused := (h.frame i).unused (.inr hi)
    exact h.frame_update (fun _ _ => Iff.rfl) (fun _ _ => Iff.rfl) (fun _ _ _ => rfl) id id
      (hf.frameSound hunused.1 hunused.2)
  owned := h.owned.update (owed_plain hf.plain hi hconfirm)
  numbers := h.numbers

theorem Sound.take (h : n.Sound) (hi : (n.frames i).state = .free)
    (hf : Fit f n.txAckWaitTimer n.txDelayTimer) (hconfirm : f.confirm = false) :
    (n.take i f).Sound where
  lock := by
    have hheld := held_update (m := n.take i f) rfl rfl rfl
    rw [used_free hi, used_plain hf.plain] at hheld
    exact h.lock_succ (m := n.take i f) rfl hheld
  securing := by
    have hsecuring := securing_update (m := n.take i f) rfl
    rw [securing_plain (.inl hi), securing_plain (.inr hf.plain)] at hsecuring
    rw [Nat.add_right_cancel hsecuring]
    exact h.securing
  frame := by
    have hunused := (h.frame i).unused (.inl hi)
    exact h.frame_update (fun _ _ => Iff.rfl) (fun _ _ => Iff.rfl) (fun _ _ _ => rfl) id id
      (hf.frameSound hunused.1 hunused.2)
  owned := by
    apply h.owned.update
    simp [NwkFrame.Owed, hconfirm, hi]
  numbers := h.numbers

theorem FrameSound.free {txActive securityActive : Option FrameSlot} {encrypt ack delay : Bool}
    (hf : f.state = .free) (hphy : txActive ≠ some i) (hactive : securityActive ≠ some i) :
    FrameSound i f txActive securityActive encrypt ack delay where
  phy := iff_of_false hphy (by simp [hf])
  active := iff_of_false hactive (by simp [hf])
  wait := by simp [hf]
  ack hstate := by simp [hf] at hstate
  delay hstate := by simp [hf] at hstate
  outgoing howed := absurd hf howed.1

theorem Sound.frameFree (h : n.Sound) (hi : (n.frames i).state.plain = true)
    (hconfirm : (n.frames i).confirm = false) : (n.frameFree i).Sound where
  lock := by
    have hheld := held_update (m := n.frameFree i) rfl rfl rfl
    rw [used_free (f := { n.frames i with state := .free }) rfl, used_plain hi] at hheld
    exact h.lock_pred (m := n.frameFree i) rfl hheld
  securing := by
    have hsecuring := securing_update (m := n.frameFree i) rfl
    rw [securing_plain (f := { n.frames i with state := .free }) (.inl rfl),
      securing_plain (.inr hi)] at hsecuring
    rw [Nat.add_right_cancel hsecuring]
    exact h.securing
  frame := by
    have hunused := (h.frame i).unused (.inr hi)
    exact h.frame_update (fun _ _ => Iff.rfl) (fun _ _ => Iff.rfl) (fun _ _ _ => rfl) id id
      (FrameSound.free rfl hunused.1 hunused.2)
  owned := by
    apply h.owned.update
    simp [NwkFrame.Owed, hconfirm]
  numbers := h.numbers

/-! ### The security module -/

/-- A frame is given to the security module. -/
theorem Sound.securityProcess (h : n.Sound) (encrypt : Bool)
    (hi : (n.frames i).state = if encrypt then .txEncrypt else .rxDecrypt) :
    (n.securityProcess i encrypt).Sound := by
  have hplain : (n.frames i).state.plain = true := by
    rw [hi]
    cases encrypt <;> rfl
  have hunused := (h.frame i).unused (.inr hplain)
  set g : NwkFrame := { n.frames i with
    state := if encrypt then .securityEncryptPending else .securityDecryptPending } with hg
  have hsecured : g.state.secured = true := by
    cases encrypt <;> rfl
  have hfree : g.state ≠ .free := by
    cases encrypt <;> simp [hg]
  constructor
  case lock =>
    have hheld := held_update (m := n.securityProcess i encrypt) (f := g) rfl rfl rfl
    rw [used_one hfree, used_plain hplain] at hheld
    exact h.lock_same (m := n.securityProcess i encrypt) rfl (Nat.add_right_cancel hheld)
  case securing =>
    have hsecuring := securing_update (m := n.securityProcess i encrypt) (f := g) rfl
    rw [securing_one hsecured, securing_plain (.inr hplain), Nat.add_zero] at hsecuring
    rw [hsecuring]
    exact ofNat_succ h.securing
  case frame =>
    apply h.frame_update (fun _ _ => Iff.rfl) (fun _ _ => Iff.rfl) (fun _ _ _ => rfl) id id
    constructor
    case phy => exact iff_of_false hunused.1 (by cases encrypt <;> simp)
    case active => exact iff_of_false hunused.2 (by cases encrypt <;> simp)
    case wait => cases encrypt <;> simp
    case ack => cases encrypt <;> simp
    case delay => cases encrypt <;> simp
    case outgoing =>
      intro howed
      left
      cases encrypt with
      | true => rfl
      | false =>
        have hout := (h.frame i).outgoing ⟨plain_ne hplain rfl, howed.2⟩
        rw [hi] at hout
        rcases hout with hout | ⟨hactive, _⟩
        · exact absurd hout (by simp [FrameState.outgoing])
        · exact absurd hactive hunused.2
  case owned =>
    apply h.owned.update
    exact and_congr_left_iff.mpr fun _ => iff_of_true hfree (plain_ne hplain rfl)
  case numbers => exact h.numbers

theorem FrameSound.working {txActive securityActive : Option FrameSlot} {encrypt ack delay : Bool}
    (hstate : f.state = .securityProcess ∨ f.state = .securityConfirm) (hphy : txActive ≠ some i)
    (hactive : securityActive = some i) (hencrypt : f.confirm = true → encrypt = true) :
    FrameSound i f txActive securityActive encrypt ack delay where
  phy := iff_of_false hphy (by rcases hstate with hs | hs <;> simp [hs])
  active := iff_of_true hactive hstate
  wait := by rcases hstate with hs | hs <;> simp [hs]
  ack := by rcases hstate with hs | hs <;> simp [hs]
  delay := by rcases hstate with hs | hs <;> simp [hs]
  outgoing howed := .inr ⟨hactive, hencrypt howed.2⟩

theorem Sound.securityStart (h : n.Sound) (hactive : n.securityActiveFrame = none)
    (hi : (n.frames i).state = .securityEncryptPending ∨
      (n.frames i).state = .securityDecryptPending) : (n.securityStart i).Sound := by
  have hsecured : (n.frames i).state.secured = true := by
    rcases hi with hi | hi <;> rw [hi] <;> rfl
  have hfree : (n.frames i).state ≠ .free := by
    rcases hi with hi | hi <;> simp [hi]
  have hphy : n.txPhyActiveFrame ≠ some i := by
    rw [ne_eq, (h.frame i).phy]
    rcases hi with hi | hi <;> simp [hi]
  set g : NwkFrame := (Security.start (n.frames i)).2 with hg
  constructor
  case lock =>
    have hheld := held_update (m := n.securityStart i) (f := g) rfl rfl rfl
    rw [used_one hfree, used_one (f := g) (by simp [hg, Security.start])] at hheld
    exact h.lock_same (m := n.securityStart i) rfl (Nat.add_right_cancel hheld)
  case securing =>
    have hsecuring := securing_update (m := n.securityStart i) (f := g) rfl
    rw [securing_one hsecured, securing_one (f := g) rfl] at hsecuring
    rw [Nat.add_right_cancel hsecuring]
    exact h.securing
  case frame =>
    apply h.frame_update (fun _ _ => Iff.rfl) _ _ id id
    · apply FrameSound.working (.inl rfl) hphy rfl
      intro hconfirm
      rcases (h.frame i).outgoing ⟨hfree, hconfirm⟩ with hout | ⟨hsome, _⟩
      · rcases hi with hi | hi
        · change ((n.frames i).state == .securityEncryptPending) = true
          rw [hi]
          rfl
        · rw [hi] at hout
          exact absurd hout (by simp [FrameState.outgoing])
      · rw [hactive] at hsome
        cases hsome
    · intro j hji
      rw [hactive]
      exact iff_of_false (fun hsome => hji (Option.some.inj hsome).symm) (by simp)
    · intro j _ hsome
      rw [hactive] at hsome
      cases hsome
  case owned =>
    apply h.owned.update
    exact and_congr_left_iff.mpr fun _ => iff_of_true (by simp) hfree
  case numbers => exact h.numbers

theorem Sound.securityCrypt (h : n.Sound) (hactive : n.securityActiveFrame = some i)
    (hi : (n.frames i).state = .securityProcess) : (n.securityCrypt p i).Sound := by
  have hphy : n.txPhyActiveFrame ≠ some i := by
    rw [ne_eq, (h.frame i).phy]
    simp [hi]
  set result := n.security.encryptReq (p.aes n.key) { n.frames i with state := .securityWait }
    with hresult
  have hstate : result.2.state = .securityProcess ∨ result.2.state = .securityConfirm := by
    rw [hresult, Security.encryptReq]
    dsimp only
    split
    case isTrue => exact .inl rfl
    case isFalse => exact .inr rfl
  have hsecured : result.2.state.secured = true := by
    rcases hstate with hs | hs <;> rw [hs] <;> rfl
  have hfree : result.2.state ≠ .free := by
    rcases hstate with hs | hs <;> simp [hs]
  constructor
  case lock =>
    have hheld := held_update (m := n.securityCrypt p i) (f := result.2) rfl rfl rfl
    rw [used_one hfree, used_one (f := n.frames i) (by simp [hi])] at hheld
    exact h.lock_same (m := n.securityCrypt p i) rfl (Nat.add_right_cancel hheld)
  case securing =>
    have hsecuring := securing_update (m := n.securityCrypt p i) (f := result.2) rfl
    rw [securing_one hsecured, securing_one (f := n.frames i) (by rw [hi]; rfl)] at hsecuring
    rw [Nat.add_right_cancel hsecuring]
    exact h.securing
  case frame =>
    apply h.frame_update (fun _ _ => Iff.rfl) (fun _ _ => Iff.rfl) (fun _ _ _ => rfl) id id
    apply FrameSound.working hstate hphy hactive
    intro hconfirm
    rcases (h.frame i).outgoing ⟨by simp [hi], hconfirm⟩ with hout | hright
    · rw [hi] at hout
      exact absurd hout (by simp [FrameState.outgoing])
    · exact hright.2
  case owned =>
    apply h.owned.update
    exact and_congr_left_iff.mpr fun _ => iff_of_true hfree (by simp [hi])
  case numbers => exact h.numbers

/-- The security module is done with a frame. A frame of a request was encrypted, so it goes on
to its transmission. -/
theorem Sound.securityConf (h : n.Sound) (hactive : n.securityActiveFrame = some i)
    (hi : (n.frames i).state = .securityConfirm) : (n.securityConf i).Sound := by
  have hphy : n.txPhyActiveFrame ≠ some i := by
    rw [ne_eq, (h.frame i).phy]
    simp [hi]
  set micStatus := (n.security.processMic (n.frames i)).1 with hmic
  set g : NwkFrame := { (n.security.processMic (n.frames i)).2 with
    state := if n.security.encrypt then .txDelay else if micStatus then .rxIndicate else .rxFinish }
    with hg
  have hconfirm : g.confirm = (n.frames i).confirm := by
    simp only [hg, Security.processMic]
    split <;> rfl
  have hfit : Fit g n.txAckWaitTimer n.txDelayTimer := by
    have hstate : g.state = .txDelay ∧ n.security.encrypt = true ∨ g.state = .rxIndicate ∧
        n.security.encrypt = false ∨ g.state = .rxFinish ∧ n.security.encrypt = false := by
      rw [hg]
      cases n.security.encrypt <;> cases micStatus <;> simp
    constructor
    case plain => rcases hstate with ⟨hs, _⟩ | ⟨hs, _⟩ | ⟨hs, _⟩ <;> rw [hs] <;> rfl
    case ack => rcases hstate with ⟨hs, _⟩ | ⟨hs, _⟩ | ⟨hs, _⟩ <;> simp [hs]
    case delay => rcases hstate with ⟨hs, _⟩ | ⟨hs, _⟩ | ⟨hs, _⟩ <;> simp [hs]
    case outgoing =>
      intro hgconfirm
      rw [hconfirm] at hgconfirm
      have hencrypt : n.security.encrypt = true := by
        rcases (h.frame i).outgoing ⟨by simp [hi], hgconfirm⟩ with hout | hright
        · rw [hi] at hout
          exact absurd hout (by simp [FrameState.outgoing])
        · exact hright.2
      rcases hstate with ⟨hs, _⟩ | ⟨_, hdecrypt⟩ | ⟨_, hdecrypt⟩
      · rw [hs]
        rfl
      · rw [hencrypt] at hdecrypt
        cases hdecrypt
      · rw [hencrypt] at hdecrypt
        cases hdecrypt
  constructor
  case lock =>
    have hheld := held_update (m := n.securityConf i) (f := g) rfl rfl rfl
    rw [used_plain hfit.plain, used_one (f := n.frames i) (by simp [hi])] at hheld
    exact h.lock_same (m := n.securityConf i) rfl (Nat.add_right_cancel hheld)
  case securing =>
    have hsecuring := securing_update (m := n.securityConf i) (f := g) rfl
    rw [securing_plain (.inr hfit.plain), securing_one (f := n.frames i) (by rw [hi]; rfl)]
      at hsecuring
    change n.securityActiveFrames - 1 = _
    apply ofNat_pred
    rw [hsecuring]
    exact h.securing
  case frame =>
    apply h.frame_update (fun _ _ => Iff.rfl) _ (fun _ _ _ => rfl) id id
    · exact hfit.frameSound hphy (by simp [Nwk.securityConf])
    · intro j hji
      rw [hactive]
      exact iff_of_false (by simp [Nwk.securityConf])
        (fun hsome => hji (Option.some.inj hsome).symm)
  case owned =>
    have howed : g.Owed ↔ (n.frames i).Owed := by
      rw [NwkFrame.Owed, NwkFrame.Owed, hconfirm, and_congr_left_iff]
      exact fun _ => iff_of_true (plain_ne hfit.plain rfl) (by simp [hi])
    exact h.owned.update howed
  case numbers => exact h.numbers

/-! ### The radio and the timers -/

theorem Sound.send (h : n.Sound) (hi : (n.frames i).state = .txSend)
    (hactive : n.txPhyActiveFrame = none) :
    Sound { n.setState i .txWaitConf with
      txPhyActiveFrame := some i
      lock := n.lock + 1
      history := .sent (n.frames i).data :: n.history } := by
  have hplain : (n.frames i).state.plain = true := by
    rw [hi]
    rfl
  have hunused := (h.frame i).unused (.inr hplain)
  constructor
  case lock =>
    have hused := total_update NwkFrame.used n.frames i { n.frames i with state := .txWaitConf }
    rw [used_plain hplain, used_one (by simp)] at hused
    apply h.lock_succ rfl
    rw [held, held, hactive]
    change total NwkFrame.used (Function.update n.frames i _) + n.dataReqQueue.length + 1 = _
    rw [Nat.add_right_cancel hused]
    rfl
  case securing =>
    have hsecuring := total_update NwkFrame.securing n.frames i
      { n.frames i with state := .txWaitConf }
    rw [securing_plain (.inr hplain)] at hsecuring
    exact h.securing.trans (congrArg _ hsecuring.symm)
  case frame =>
    apply h.frame_update _ (fun _ _ => Iff.rfl) (fun _ _ _ => rfl) id id
    · constructor
      case phy => exact iff_of_true rfl rfl
      case active => exact iff_of_false hunused.2 (by simp)
      case wait => simp
      case ack => simp
      case delay => simp
      case outgoing => exact fun _ => .inl rfl
    · intro j hji
      rw [hactive]
      exact iff_of_false (fun hsome => hji (Option.some.inj hsome).symm) (by simp)
  case owned =>
    apply h.owned.update
    exact and_congr_left_iff.mpr fun _ => iff_of_true (by simp) (by simp [hi])
  case numbers => exact h.numbers

theorem Sound.phyConf (h : n.Sound) (status : PhyStatus) (hactive : n.txPhyActiveFrame = some i) :
    Sound { n.setFrame i { n.frames i with
        state := .txSent, status := txConvertPhyStatus status } with
      txPhyActiveFrame := none
      lock := n.lock - 1 } := by
  have hi := (h.frame i).phy.mp hactive
  have hsecurity : n.securityActiveFrame ≠ some i := by
    rw [ne_eq, (h.frame i).active]
    simp [hi]
  set g : NwkFrame := { n.frames i with
    state := .txSent, status := txConvertPhyStatus status } with hg
  have hplain : g.state.plain = true := rfl
  constructor
  case lock =>
    have hused := total_update NwkFrame.used n.frames i g
    rw [used_plain hplain, used_one (f := n.frames i) (by simp [hi])] at hused
    apply h.lock_pred rfl
    rw [held, held, hactive]
    change total NwkFrame.used (Function.update n.frames i g) + n.dataReqQueue.length + 0 + 1 = _
    rw [Nat.add_right_cancel hused]
    rfl
  case securing =>
    have hsecuring := total_update NwkFrame.securing n.frames i g
    have hbefore : (n.frames i).securing = 0 := by
      rw [NwkFrame.securing, hi]
      rfl
    rw [securing_plain (.inr hplain), hbefore] at hsecuring
    exact h.securing.trans (congrArg _ hsecuring.symm)
  case frame =>
    apply h.frame_update _ (fun _ _ => Iff.rfl) (fun _ _ _ => rfl) id id
    · have hfit : Fit g n.txAckWaitTimer n.txDelayTimer := by
        constructor
        case plain => rfl
        case ack => simp [hg]
        case delay => simp [hg]
        case outgoing => exact fun _ => rfl
      exact hfit.frameSound (by simp) hsecurity
    · intro j hji
      rw [hactive]
      exact iff_of_false (by simp) (fun hsome => hji (Option.some.inj hsome).symm)
  case owned =>
    have howed : g.Owed ↔ (n.frames i).Owed :=
      and_congr_left_iff.mpr fun _ => iff_of_true (by simp [hg]) (by simp [hi])
    exact h.owned.update howed
  case numbers => exact h.numbers

def ackTicked (f : NwkFrame) : NwkFrame :=
  if f.state = .txWaitAck then
    if f.timeout - 1 = 0 then
      { f with timeout := f.timeout - 1, state := .txConfirm, status := .noAck }
    else { f with timeout := f.timeout - 1 }
  else f

def delayTicked (f : NwkFrame) : NwkFrame :=
  if f.state = .txWaitDelay then
    { f with
      timeout := f.timeout - 1
      state := if f.timeout - 1 = 0 then .txSend else .txWaitDelay }
  else f

theorem ackWaitTick_eq (n : Nwk) (i : FrameSlot) :
    n.ackWaitTick i = { n.setFrame i (ackTicked (n.frames i)) with
      txAckWaitTimer := n.txAckWaitTimer || decide ((n.frames i).state = .txWaitAck) } := by
  rw [ackWaitTick, ackTicked]
  dsimp only
  split
  case isTrue hi =>
    split
    case isTrue => simp [txConfirm, setFrame, hi]
    case isFalse => simp [setFrame, hi]
  case isFalse hi => simp [setFrame, hi]

theorem delayTick_eq (n : Nwk) (i : FrameSlot) :
    n.delayTick i = { n.setFrame i (delayTicked (n.frames i)) with
      txDelayTimer := n.txDelayTimer || decide ((n.frames i).state = .txWaitDelay) } := by
  rw [delayTick, delayTicked]
  dsimp only
  split
  case isTrue hi => simp [setFrame, hi]
  case isFalse hi => simp [setFrame, hi]

theorem txAckWaitTimerHandler_eq (n : Nwk) :
    n.txAckWaitTimerHandler = { n with
      frames := fun i => ackTicked (n.frames i)
      txAckWaitTimer := (List.finRange 5).any fun i => (n.frames i).state = .txWaitAck } := by
  let set (x : (FrameSlot → NwkFrame) × Bool) : Nwk :=
    { n with frames := x.1, txAckWaitTimer := x.2 }
  have hfold : (List.finRange 5).foldl ackWaitTick (set (n.frames, false)) =
      set ((List.finRange 5).foldl (sweep ackTicked fun f => f.state = .txWaitAck)
        (n.frames, false)) :=
    List.foldl_hom set fun x i => ackWaitTick_eq (set x) i
  rw [txAckWaitTimerHandler]
  refine hfold.trans ?_
  rw [foldl_sweep _ _ (List.nodup_finRange 5)]
  simp [set]

theorem txDelayTimerHandler_eq (n : Nwk) :
    n.txDelayTimerHandler = { n with
      frames := fun i => delayTicked (n.frames i)
      txDelayTimer := (List.finRange 5).any fun i => (n.frames i).state = .txWaitDelay } := by
  let set (x : (FrameSlot → NwkFrame) × Bool) : Nwk := { n with frames := x.1, txDelayTimer := x.2 }
  have hfold : (List.finRange 5).foldl delayTick (set (n.frames, false)) =
      set ((List.finRange 5).foldl (sweep delayTicked fun f => f.state = .txWaitDelay)
        (n.frames, false)) :=
    List.foldl_hom set fun x i => delayTick_eq (set x) i
  rw [txDelayTimerHandler]
  refine hfold.trans ?_
  rw [foldl_sweep _ _ (List.nodup_finRange 5)]
  simp [set]

theorem Sound.sweep (h : n.Sound) {rewrite : NwkFrame → NwkFrame} {ack delay : Bool}
    (hrewrite : ∀ i, rewrite (n.frames i) = n.frames i ∨
      (n.frames i).state.plain = true ∧ Fit (rewrite (n.frames i)) ack delay ∧
        (rewrite (n.frames i)).confirm = (n.frames i).confirm)
    (hack : ∀ i, (n.frames i).state = .txWaitAck → ack = true)
    (hdelay : ∀ i, (n.frames i).state = .txWaitDelay → delay = true) :
    Sound { n with
      frames := fun i => rewrite (n.frames i)
      txAckWaitTimer := ack
      txDelayTimer := delay } where
  lock := by
    have hused : total NwkFrame.used (fun i => rewrite (n.frames i)) =
        total NwkFrame.used n.frames := by
      apply total_congr
      intro i
      rcases hrewrite i with heq | ⟨hi, hfit, _⟩
      · rw [heq]
      · rw [used_plain hi, used_plain hfit.plain]
    apply h.lock_same
    · rfl
    · rw [held, held, hused]
  securing := by
    have hsecuring : total NwkFrame.securing (fun i => rewrite (n.frames i)) =
        total NwkFrame.securing n.frames := by
      apply total_congr
      intro i
      rcases hrewrite i with heq | ⟨hi, hfit, _⟩
      · rw [heq]
      · rw [securing_plain (.inr hi), securing_plain (.inr hfit.plain)]
    exact h.securing.trans (congrArg _ hsecuring.symm)
  frame i := by
    rcases hrewrite i with heq | ⟨hi, hfit, _⟩
    · dsimp only
      rw [heq]
      constructor
      case phy => exact (h.frame i).phy
      case active => exact (h.frame i).active
      case wait => exact (h.frame i).wait
      case ack => exact fun hstate => ⟨hack i hstate, ((h.frame i).ack hstate).2⟩
      case delay => exact fun hstate => ⟨hdelay i hstate, ((h.frame i).delay hstate).2⟩
      case outgoing => exact (h.frame i).outgoing
    · have hunused := (h.frame i).unused (.inr hi)
      exact hfit.frameSound hunused.1 hunused.2
  owned := by
    apply h.owned.congr
    intro i
    dsimp only
    rcases hrewrite i with heq | ⟨hi, hfit, hconfirm⟩
    · rw [heq]
    · exact owed_plain hfit.plain hi hconfirm
  numbers := h.numbers

theorem Sound.ackWait (h : n.Sound) : n.txAckWaitTimerHandler.Sound := by
  have hany (i : FrameSlot) (hi : (n.frames i).state = .txWaitAck) :
      ((List.finRange 5).any fun i => (n.frames i).state = .txWaitAck) = true :=
    List.any_eq_true.mpr ⟨i, List.mem_finRange i, decide_eq_true hi⟩
  rw [txAckWaitTimerHandler_eq]
  apply h.sweep _ hany (fun i hi => ((h.frame i).delay hi).1)
  intro i
  rw [ackTicked]
  split
  case isTrue hi =>
    right
    refine ⟨by rw [hi]; rfl, ?_⟩
    split
    case isTrue =>
      refine ⟨?_, rfl⟩
      constructor
      case plain => rfl
      case ack => simp
      case delay => simp
      case outgoing => exact fun _ => rfl
    case isFalse htimeout =>
      refine ⟨?_, rfl⟩
      constructor
      case plain =>
        rw [hi]
        rfl
      case ack => exact fun _ => ⟨hany i hi, htimeout⟩
      case delay => simp [hi]
      case outgoing =>
        intro _
        rw [hi]
        rfl
  case isFalse => exact .inl rfl

theorem Sound.delayWait (h : n.Sound) : n.txDelayTimerHandler.Sound := by
  have hany (i : FrameSlot) (hi : (n.frames i).state = .txWaitDelay) :
      ((List.finRange 5).any fun i => (n.frames i).state = .txWaitDelay) = true :=
    List.any_eq_true.mpr ⟨i, List.mem_finRange i, decide_eq_true hi⟩
  rw [txDelayTimerHandler_eq]
  apply h.sweep _ (fun i hi => ((h.frame i).ack hi).1) hany
  intro i
  rw [delayTicked]
  split
  case isTrue hi =>
    right
    refine ⟨by rw [hi]; rfl, ?_, rfl⟩
    constructor
    case plain =>
      dsimp only
      split <;> rfl
    case ack =>
      dsimp only
      split <;> simp
    case delay =>
      dsimp only
      split
      case isTrue => simp
      case isFalse htimeout => exact fun _ => ⟨hany i hi, htimeout⟩
    case outgoing =>
      intro _
      dsimp only
      split <;> rfl
  case isFalse => exact .inl rfl

/-! ### Requests -/

theorem Sound.post (h : n.Sound) (params : DataParams) : (n.dataReq params).Sound where
  lock := by
    apply h.lock_succ rfl
    simp only [held, dataReq, List.length_cons]
    omega
  securing := h.securing
  frame := h.frame
  owned := h.owned.post rfl rfl
  numbers := by
    simp only [dataReq, List.map_cons, List.cons_append, List.range_succ]
    exact (h.numbers.cons n.requests).trans (List.perm_append_singleton _ _).symm

theorem Sound.refuse (h : n.Sound) {before after : List DataReq} {req : DataReq}
    (hqueue : n.dataReqQueue = before ++ req :: after) (hreq : req.state = .initial) :
    Sound { n with
      dataReqQueue := before ++ { req with state := .confirm, status := .outOfMemory } :: after }
    where
  lock := by
    apply h.lock_same
    · rfl
    · simp [held, hqueue]
  securing := h.securing
  frame := h.frame
  owned := by
    have howned := h.owned
    rw [hqueue] at howned
    exact howned.replace (by simp [hreq]) (by simp) rfl
  numbers := by
    have hnumbers := h.numbers
    rw [hqueue] at hnumbers
    simpa using hnumbers

theorem Sound.confirm (h : n.Sound) {before after : List DataReq} {req : DataReq}
    (hqueue : n.dataReqQueue = before ++ req :: after) (hreq : req.state = .confirm) :
    Sound { n with
      dataReqQueue := before ++ after
      lock := n.lock - 1
      history := .confirmed req.number req.status req.control :: n.history } where
  lock := by
    apply h.lock_pred rfl
    simp only [held, hqueue, List.length_append, List.length_cons]
    omega
  securing := h.securing
  frame := h.frame
  owned := by
    have howned := h.owned
    rw [hqueue] at howned
    exact howned.remove (by simp [hreq])
  numbers := by
    have hnumbers := h.numbers
    rw [hqueue, List.map_append, List.map_cons, List.append_assoc, List.cons_append] at hnumbers
    rw [List.map_append, List.append_assoc]
    refine List.Perm.trans ?_ hnumbers
    apply List.Perm.append_left
    exact List.perm_middle

theorem Sound.launch (h : n.Sound) {before after : List DataReq} {req : DataReq}
    (hi : (n.frames i).state = .free) (hqueue : n.dataReqQueue = before ++ req :: after)
    (hbefore : ∀ r ∈ before, r.state = .waitConf) (hreq : req.state = .initial)
    (hf : Fit f n.txAckWaitTimer n.txDelayTimer) (hconfirm : f.confirm = true) :
    Sound { ((n.take i f).fill req.params.data.length).originate
        (.launched req.number req.params (n.dataReqFrame req.params)) with
      dataReqQueue := before ++ { req with frame := some i, state := .waitConf } :: after } where
  lock := by
    have hused := total_update NwkFrame.used n.frames i f
    rw [used_free hi, used_plain hf.plain, Nat.add_zero] at hused
    apply h.lock_succ rfl
    rw [held, held, hqueue]
    change total NwkFrame.used (Function.update n.frames i f) + _ + _ = _
    rw [hused, List.length_append, List.length_append, List.length_cons, List.length_cons]
    change _ + _ + n.txPhyActiveFrame.toList.length = _
    omega
  securing := by
    have hsecuring := total_update NwkFrame.securing n.frames i f
    rw [securing_plain (.inl hi), securing_plain (.inr hf.plain)] at hsecuring
    exact h.securing.trans (congrArg _ (Nat.add_right_cancel hsecuring).symm)
  frame := by
    have hunused := (h.frame i).unused (.inl hi)
    exact h.frame_update (fun _ _ => Iff.rfl) (fun _ _ => Iff.rfl) (fun _ _ _ => rfl) id id
      (hf.frameSound hunused.1 hunused.2)
  owned := by
    have howned := h.owned
    rw [hqueue] at howned
    exact howned.launch hbefore (by simp [hreq]) hi ⟨plain_ne hf.plain rfl, hconfirm⟩
  numbers := by
    have hnumbers := h.numbers
    rw [hqueue, List.map_append, List.map_cons] at hnumbers
    rw [List.map_append, List.map_cons]
    exact hnumbers

theorem Sound.txConf (h : n.Sound) (hi : (n.frames i).state = .txConfirm)
    (hconfirm : (n.frames i).confirm = true) : (n.dataReqTxConf i).Sound := by
  have hplain : (n.frames i).state.plain = true := by
    rw [hi]
    rfl
  have hunused := (h.frame i).unused (.inr hplain)
  have howed : (n.frames i).Owed := ⟨plain_ne hplain rfl, hconfirm⟩
  rcases h.owned.confirmFirst howed (n.frames i) with
    ⟨before, req, after, hqueue, _, _, hconfirmed⟩
  have hlength : (n.dataReqTxConf i).dataReqQueue.length = n.dataReqQueue.length := by
    change (Nwk.confirmFirst i (n.frames i) n.dataReqQueue).length = _
    rw [hconfirmed, hqueue]
    simp
  have hmap : (n.dataReqTxConf i).dataReqQueue.map DataReq.number =
      n.dataReqQueue.map DataReq.number := by
    change (Nwk.confirmFirst i (n.frames i) n.dataReqQueue).map DataReq.number = _
    rw [hconfirmed, hqueue]
    simp
  constructor
  case lock =>
    have hheld := held_update (n := n) (m := n.dataReqTxConf i) rfl hlength rfl
    rw [used_free (f := { n.frames i with state := .free }) rfl, used_plain hplain] at hheld
    exact h.lock_pred (m := n.dataReqTxConf i) rfl hheld
  case securing =>
    have hsecuring := securing_update (n := n) (m := n.dataReqTxConf i) rfl
    rw [securing_plain (f := { n.frames i with state := .free }) (.inl rfl),
      securing_plain (.inr hplain)] at hsecuring
    rw [Nat.add_right_cancel hsecuring]
    exact h.securing
  case frame =>
    exact h.frame_update (fun _ _ => Iff.rfl) (fun _ _ => Iff.rfl) (fun _ _ _ => rfl) id id
      (FrameSound.free rfl hunused.1 hunused.2)
  case owned => exact h.owned.confirm howed _ rfl
  case numbers =>
    rw [hmap]
    exact h.numbers

/-! ### Every move, and every run -/

/-- What no buffer and no request depends on. -/
theorem Sound.keep (h : n.Sound) (routes : RouteTable) (duplicates : Duplicates)
    (macSeqNum rxAckControl : Byte) (draws : ℕ) :
    (n.keep routes duplicates macSeqNum rxAckControl draws).Sound :=
  ⟨h.lock, h.securing, h.frame, h.owned, h.numbers⟩

theorem Sound.record (h : n.Sound) {r : Record} (hr : r.confirmation = none) :
    Sound { n with history := r :: n.history } where
  lock := h.lock
  securing := h.securing
  frame := h.frame
  owned := h.owned
  numbers := by
    rw [List.filterMap_cons_none hr]
    exact h.numbers

theorem Sound.originate (h : n.Sound) {r : Record} (hr : r.confirmation = none) :
    (n.originate r).Sound :=
  ⟨h.lock, h.securing, h.frame, h.owned, (h.record hr).numbers⟩

theorem Sound.fill (h : n.Sound) (size : ℕ) : (n.fill size).Sound :=
  ⟨h.lock, h.securing, h.frame, h.owned, h.numbers⟩

theorem Sound.timers (h : n.Sound) (ack delay : Bool) (hack : n.txAckWaitTimer = true → ack = true)
    (hdelay : n.txDelayTimer = true → delay = true) :
    Sound { n with txAckWaitTimer := ack, txDelayTimer := delay } where
  lock := h.lock
  securing := h.securing
  frame j := (h.frame j).other Iff.rfl Iff.rfl (fun _ => rfl) hack hdelay
  owned := h.owned
  numbers := h.numbers

theorem Prepared.state_cases {panId : Word} {g : NwkFrame} (h : Prepared panId g f) :
    f.state = .txDelay ∨ f.state = .txEncrypt := by
  rw [h.state]
  split
  case isTrue => exact .inl rfl
  case isFalse =>
    split
    case isTrue => exact .inr rfl
    case isFalse => exact .inl rfl

theorem fit_sending (h : f.state = .txDelay ∨ f.state = .txEncrypt) (ack delay : Bool) :
    Fit f ack delay := by
  constructor
  case plain => rcases h with hs | hs <;> rw [hs] <;> rfl
  case ack => rcases h with hs | hs <;> simp [hs]
  case delay => rcases h with hs | hs <;> simp [hs]
  case outgoing =>
    intro _
    rcases h with hs | hs <;> rw [hs] <;> rfl

theorem Sound.confirm_false (h : n.Sound) (hplain : (n.frames i).state.plain = true)
    (hout : (n.frames i).state.outgoing = false) : (n.frames i).confirm = false := by
  apply Bool.eq_false_of_not_eq_true
  intro hconfirm
  rcases (h.frame i).outgoing ⟨plain_ne hplain rfl, hconfirm⟩ with hstate | ⟨hactive, _⟩
  · rw [hout] at hstate
    cases hstate
  · exact ((h.frame i).unused (.inr hplain)).2 hactive

theorem Sound.setState (h : n.Sound) {state : FrameState}
    (hi : (n.frames i).state.plain = true) (hstate : state.plain = true)
    (hack : state ≠ .txWaitAck) (hdelay : state ≠ .txWaitDelay)
    (hout : state.outgoing = false → (n.frames i).confirm = false) :
    (n.setState i state).Sound := by
  refine h.setFrame (f := { n.frames i with state := state }) hi ?_ rfl
  constructor
  case plain => exact hstate
  case ack => exact fun heq => absurd heq hack
  case delay => exact fun heq => absurd heq hdelay
  case outgoing =>
    intro hconfirm
    by_contra hfalse
    rw [hout (Bool.eq_false_of_not_eq_true hfalse)] at hconfirm
    cases hconfirm

theorem Sound.passed (h : n.Sound) {state : FrameState}
    (hi : (n.frames i).state = .rxReceived ∨ (n.frames i).state = .rxIndicate)
    (hstate : state = .rxDecrypt ∨ state = .rxIndicate ∨ state = .rxRoute ∨ state = .rxFinish) :
    (n.setState i state).Sound := by
  have hplain : (n.frames i).state.plain = true := by
    rcases hi with hi | hi <;> rw [hi] <;> rfl
  apply h.setState hplain
  · rcases hstate with rfl | rfl | rfl | rfl <;> rfl
  · rcases hstate with rfl | rfl | rfl | rfl <;> simp
  · rcases hstate with rfl | rfl | rfl | rfl <;> simp
  · intro _
    apply h.confirm_false hplain
    rcases hi with hi | hi <;> rw [hi] <;> rfl

theorem Passed.state_cases {g : NwkFrame} {state : FrameState} (h : Passed n g state) :
    state = .rxDecrypt ∨ state = .rxIndicate ∨ state = .rxRoute ∨ state = .rxFinish := by
  cases h with
  | finish => simp
  | accept =>
    rw [rxAccept]
    split <;> simp
  | route => simp

theorem take_frames_ne {j : FrameSlot} (hij : j ≠ i) : (n.take i f).frames j = n.frames j :=
  Function.update_of_ne hij _ _

theorem slot_ne {j : FrameSlot} {s : FrameState} (hi : (n.frames i).state = .free)
    (hj : (n.frames j).state = s) (hs : s ≠ .free) : j ≠ i := by
  rintro rfl
  exact hs (hj.symm.trans hi)

theorem Move.sound (hmove : Move p e n m) (h : n.Sound) : m.Sound := by
  cases hmove with
  | keep => exact h.keep _ _ _ _ _
  | indicate => exact h.record rfl
  | post params hparams => exact h.post params
  | receive i ind hi hind hair =>
    apply Sound.fill
    apply h.take hi _ rfl
    constructor
    case plain => rfl
    case ack => simp [PhyDataInd.frame]
    case delay => simp [PhyDataInd.frame]
    case outgoing => simp [PhyDataInd.frame, NwkFrame.cleared]
  | pass j state hj hstate => exact h.passed (.inl hj) hstate.state_cases
  | relay i j state f hi hj hstate hpan hf =>
    have htake := h.take hi (fit_sending (.inl hf.state) _ _) hf.confirm
    have hframe := take_frames_ne (n := n) (f := f) (slot_ne hi hj (by simp))
    exact htake.passed (.inl (by rw [hframe, hj])) hstate.state_cases
  | finish j hj => exact h.passed (.inr hj) (by simp)
  | acknowledge i j control f hi hj hcause hf =>
    have htake := h.take hi (fit_sending hf.state_cases _ _) hf.confirm
    have hframe := take_frames_ne (n := n) (f := f) (slot_ne hi hj (by simp))
    apply Sound.originate _ rfl
    exact htake.passed (.inr (by rw [hframe, hj])) (by simp)
  | hear i j hi hj hservice hdata control =>
    refine h.setFrame (f := { n.frames i with state := .txConfirm, control := control })
      (by rw [hi]; rfl) ?_ rfl
    constructor
    case plain => rfl
    case ack => simp
    case delay => simp
    case outgoing => exact fun _ => rfl
  | route j f hj hf =>
    have hplain : (n.frames j).state.plain = true := by
      rw [hj]
      rfl
    apply h.setFrame hplain (fit_sending hf.state_cases _ _)
    rw [hf.confirm, h.confirm_false hplain (by rw [hj]; rfl)]
  | report i j f hi hj hf =>
    have htake := h.take hi (fit_sending hf.state_cases _ _) hf.confirm
    have hframe := take_frames_ne (n := n) (f := f) (slot_ne hi hj (by simp))
    have hplain : ((n.take i f).frames j).state.plain = true := by
      rw [hframe, hj]
      rfl
    apply Sound.originate _ rfl
    apply htake.frameFree hplain
    exact htake.confirm_false hplain (by rw [hframe, hj]; rfl)
  | release j hj =>
    have hplain : (n.frames j).state.plain = true := by
      rcases hj with hj | hj | ⟨hj, _⟩ <;> rw [hj] <;> rfl
    apply h.frameFree hplain
    rcases hj with hj | hj | ⟨_, hconfirm⟩
    · exact h.confirm_false hplain (by rw [hj]; rfl)
    · exact h.confirm_false hplain (by rw [hj]; rfl)
    · exact hconfirm
  | secure i encrypt hi => exact h.securityProcess encrypt hi
  | start i hactive hi => exact h.securityStart hactive hi
  | crypt i hactive hi => exact h.securityCrypt hactive hi
  | secured i hactive hi => exact h.securityConf hactive hi
  | delay i hi htimeout =>
    refine (h.timers n.txAckWaitTimer true id (fun _ => rfl)).setFrame
      (f := { n.frames i with state := .txWaitDelay }) ?_ ?_ rfl
    · change (n.frames i).state.plain = true
      rw [hi]
      rfl
    · constructor
      case plain => rfl
      case ack => simp
      case delay =>
        refine fun _ => ⟨rfl, ?_⟩
        rintro heq
        rw [show (n.frames i).timeout = 0 from heq] at htimeout
        exact absurd htimeout (by decide)
      case outgoing => exact fun _ => rfl
  | ready i hi =>
    apply h.setState (by rw [hi]; rfl) rfl (by simp) (by simp)
    exact fun hout => absurd hout (by simp [FrameState.outgoing])
  | send i hi hactive => exact h.send hi hactive
  | phyConf i status hactive => exact h.phyConf status hactive
  | wait i hi hstatus hsrc hack =>
    refine (h.timers true n.txDelayTimer (fun _ => rfl) id).setFrame
      (f := { n.frames i with state := .txWaitAck, timeout := ackWaitTimeout }) ?_ ?_ rfl
    · change (n.frames i).state.plain = true
      rw [hi]
      rfl
    · constructor
      case plain => rfl
      case ack =>
        have htimeout : ackWaitTimeout ≠ 0 := by decide
        exact fun _ => ⟨rfl, htimeout⟩
      case delay => simp
      case outgoing => exact fun _ => rfl
  | done i hi hend =>
    apply h.setState (by rw [hi]; rfl) rfl (by simp) (by simp)
    exact fun hout => absurd hout (by simp [FrameState.outgoing])
  | ackWait => exact h.ackWait
  | delayWait => exact h.delayWait
  | txConf i hi hconfirm => exact h.txConf hi hconfirm
  | launch i before req after f hi hqueue hbefore hreq hf =>
    exact h.launch hi hqueue hbefore hreq (fit_sending hf.state_cases _ _) hf.confirm
  | refuse before req after hqueue hreq => exact h.refuse hqueue hreq
  | confirm before req after hqueue hreq => exact h.confirm hqueue hreq

theorem Moves.sound (hmoves : Moves p e n m) (h : n.Sound) : m.Sound := by
  induction hmoves with
  | refl => exact h
  | tail _ hmove ih => exact hmove.sound ih

theorem Sound.step (h : n.Sound) (a : Action) : (n.step p a).Sound := by
  have hworking (ha : a.Within ⟨fun _ => True, fun _ => True⟩) : (n.step p a).Sound :=
    (step_moves ha n).sound h
  cases a with
  | phyDataInd ind => exact hworking trivial
  | phyDataConf status => exact hworking trivial
  | rxTask answers => exact hworking (fun _ _ _ => trivial)
  | txTask => exact hworking trivial
  | dataReqTask requests => exact hworking (fun _ _ => trivial)
  | securityTask => exact hworking trivial
  | ackWaitTimer => exact hworking trivial
  | delayTimer => exact hworking trivial
  | duplicateTimer => exact hworking trivial
  | dataReq params => exact hworking trivial
  | setAddr addr => exact ⟨h.lock, h.securing, h.frame, h.owned, h.numbers⟩
  | setPanId panId => exact ⟨h.lock, h.securing, h.frame, h.owned, h.numbers⟩
  | openEndpoint id => exact ⟨h.lock, h.securing, h.frame, h.owned, h.numbers⟩
  | setSecurityKey key => exact ⟨h.lock, h.securing, h.frame, h.owned, h.numbers⟩

theorem run_sound (p : Platform) (actions : List Action) : (run (step p) init actions).Sound :=
  run_invariant (fun _ a h => h.step a) init_sound actions

theorem Sound.busy_iff (h : n.Sound) (hqueue : n.dataReqQueue.length < 65530) :
    n.busy = true ↔ (∃ i, (n.frames i).state ≠ .free) ∨ n.dataReqQueue ≠ [] := by
  have hused : total NwkFrame.used n.frames ≤ 5 := by
    apply total_le_card
    intro f
    rw [NwkFrame.used]
    split <;> simp
  have hphy : n.txPhyActiveFrame.toList.length ≤ 1 := by
    cases n.txPhyActiveFrame <;> simp
  have hheld : n.busy = true ↔ 0 < n.held := by
    rw [busy, decide_eq_true_eq, h.lock, BitVec.lt_def, BitVec.toNat_ofNat, Nat.mod_eq_of_lt]
    · rfl
    · rw [held]
      omega
  rw [hheld, Nat.pos_iff_ne_zero, ne_eq, held, Nat.add_eq_zero_iff, Nat.add_eq_zero_iff,
    total_eq_zero_iff, List.length_eq_zero_iff, List.length_eq_zero_iff]
  constructor
  · intro hne
    by_contra hnone
    simp only [not_or, not_exists, not_not] at hnone
    rcases hnone with ⟨hframes, hempty⟩
    apply hne
    refine ⟨⟨fun i => used_free (hframes i), hempty⟩, ?_⟩
    cases hactive : n.txPhyActiveFrame with
    | none => rfl
    | some i =>
      have hi := (h.frame i).phy.mp hactive
      rw [hframes i] at hi
      cases hi
  · rintro (⟨i, hi⟩ | hne) ⟨⟨hframes, hempty⟩, _⟩
    · have hzero := hframes i
      rw [used_one hi] at hzero
      cases hzero
    · exact hne hempty

/-- A state after interrupts, timers, task handlers and calls of the application in which no
buffer has been overrun. -/
def Reached (p : Platform) (n : Nwk) : Prop :=
  ∃ actions, n = run (step p) init actions ∧ n.overrun = false

theorem Reached.sound (h : Reached p n) : n.Sound := by
  rcases h with ⟨actions, rfl, _⟩
  exact run_sound p actions

/-- While fewer than `2 ^ 16` things are held, the node is busy exactly while some buffer is in
use or some request is in the queue. -/
theorem reached_busy_iff (hn : Reached p n) (hqueue : n.dataReqQueue.length < 65530) :
    n.busy = true ↔ (∃ i, (n.frames i).state ≠ .free) ∨ n.dataReqQueue ≠ [] :=
  hn.sound.busy_iff hqueue

def examplePlatform : Platform where
  aes _ block := block
  rand _ := 0

/-- A request for an acknowledged message to node 2. -/
def exampleParams : DataParams where
  dstAddr := 2
  dstEndpoint := 3
  srcEndpoint := 3
  options := nwkOptAckRequest
  data := [7]
  control := 0

/-- A request goes out, is acknowledged and confirmed; one is made before that, which is to be
encrypted, and one in its confirmation. -/
def exampleActions : List Action :=
  [.setAddr 1, .setPanId 5, .openEndpoint 3, .dataReq exampleParams, .dataReqTask [], .txTask,
    .delayTimer, .txTask, .phyDataConf .success, .txTask,
    .dataReq { exampleParams with options := nwkOptEnableSecurity },
    .phyDataInd ⟨[97, 136, 1, 5, 0, 1, 0, 2, 0, 0, 1, 2, 0, 1, 0, 0, 0, 1, 9], 200, 60⟩,
    .rxTask fun _ => ⟨true, 9, []⟩, .rxTask fun _ => ⟨true, 9, []⟩, .txTask, .dataReqTask [],
    .dataReqTask [exampleParams]]

theorem exampleActions_reached :
    Reached examplePlatform (run (step examplePlatform) init exampleActions) :=
  ⟨exampleActions, rfl, by decide +kernel⟩

theorem exampleActions_busy_iff :
    (run (step examplePlatform) init exampleActions).busy = true ↔
      (∃ i, ((run (step examplePlatform) init exampleActions).frames i).state ≠ .free) ∨
        (run (step examplePlatform) init exampleActions).dataReqQueue ≠ [] :=
  reached_busy_iff exampleActions_reached (by decide +kernel)

/-- Every request that has been made is in the queue once, or has been confirmed once. -/
theorem reached_confirmed (hn : Reached p n) :
    (n.dataReqQueue.map DataReq.number ++ n.history.filterMap Record.confirmation).Perm
      (List.range n.requests) :=
  hn.sound.numbers

theorem exampleActions_confirmed :
    ((run (step examplePlatform) init exampleActions).dataReqQueue.map DataReq.number ++
      (run (step examplePlatform) init exampleActions).history.filterMap Record.confirmation).Perm
        (List.range (run (step examplePlatform) init exampleActions).requests) :=
  reached_confirmed exampleActions_reached

end Nwk

end Aquila.Lwm
