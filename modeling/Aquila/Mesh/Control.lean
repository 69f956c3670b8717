import Aquila.Bridge.Crc
import Aquila.Mesh.Tx

/-! # Automatic address assignment

A node pings an address made from its EUI until one is not acknowledged. The second and
later candidates are not compared with the automatic range; they leave it exactly when
they pass its upper end, since no step is long enough to jump over the other addresses.
-/

namespace Aquila.Mesh
open Library

def nwkSuccessStatus : Byte := 0x00#8

def meshAddrEndpoint : Byte := 15#8

/-- `calcrc` over the eight bytes of an EUI; its bytes are unsigned. -/
def calcrc (id : Fin 8 → Byte) : Word :=
  (List.ofFn id).foldl
    (fun (crc : Word) (c : Byte) => Bridge.crcRound^[8] (crc ^^^ (c.setWidth 16 <<< 8))) 0

structure MeshControl where
  genAddr : Word
  shortAddr : Word
  waitingAddrConfirm : Bool
  addrAssignSuccess : Bool
  /-- packets given to `sendPacket` -/
  pings : List Outgoing

namespace MeshControl

/-- `MeshControl::MeshControl` -/
def init : MeshControl := ⟨0, 0, false, false, []⟩

def packet (s : MeshControl) : Outgoing :=
  ⟨⟨s.genAddr, meshAddrEndpoint, meshAddrEndpoint, []⟩, nwkOptAckRequest⟩

def ping (s : MeshControl) : MeshControl :=
  { s with pings := s.pings ++ [s.packet], waitingAddrConfirm := true }

def pingCb (s : MeshControl) (status : Byte) : MeshControl :=
  if status = nwkSuccessStatus then
    { s with waitingAddrConfirm := false, addrAssignSuccess := false }
  else
    { s with waitingAddrConfirm := false, addrAssignSuccess := true, shortAddr := s.genAddr }

def retry (s : MeshControl) (id : Fin 8 → Byte) : MeshControl :=
  if s.addrAssignSuccess then s
  else { s with genAddr := s.genAddr + (1 + (id 7).setWidth 16) }

/-- The loop of `assignAddr`, for the outcomes of its pings: the address returned, unless the
loop still waits for a ping. -/
def assignLoop (id : Fin 8 → Byte) : List Byte → MeshControl → Option Word × MeshControl
  | [], s => if s.addrAssignSuccess then (some s.shortAddr, s) else (none, s.ping)
  | status :: statuses, s =>
    if s.addrAssignSuccess then (some s.shortAddr, s)
    else assignLoop id statuses ((s.ping.pingCb status).retry id)

def firstAddr (id : Fin 8 → Byte) : Word :=
  let genAddr := calcrc id
  if genAddr < 256 then genAddr + 256 else genAddr

/-- `MeshControl::assignAddr` -/
def assignAddr (s : MeshControl) (id : Fin 8 → Byte) (statuses : List Byte) :
    Option Word × MeshControl :=
  assignLoop id statuses { s with genAddr := firstAddr id }

def Automatic (a : Word) : Prop := 0x0100 ≤ a.toNat ∧ a.toNat ≤ 0xFFFD

def InRange (result : Option Word × MeshControl) : Prop :=
  (∀ p ∈ result.2.pings, Automatic p.message.dstAddr) ∧ ∀ a ∈ result.1, Automatic a

def collisions (statuses : List Byte) : ℕ :=
  (statuses.takeWhile (fun status => status = nwkSuccessStatus)).length

def increment (id : Fin 8 → Byte) : ℕ := 1 + (id 7).toNat

/-! ### The addresses tried -/

def pingAfter (id : Fin 8 → Byte) (addr : Word) (k : ℕ) : Outgoing :=
  ⟨⟨addr + BitVec.ofNat 16 (k * increment id), meshAddrEndpoint, meshAddrEndpoint, []⟩,
    nwkOptAckRequest⟩

theorem pingAfter_zero (id : Fin 8 → Byte) (s : MeshControl) :
    pingAfter id s.genAddr 0 = s.packet := by
  rw [pingAfter, Nat.zero_mul, BitVec.add_zero]
  rfl

theorem pingAfter_succ (id : Fin 8 → Byte) (addr : Word) (k : ℕ) :
    pingAfter id addr (k + 1) = pingAfter id (addr + (1 + (id 7).setWidth 16)) k := by
  have hword : (1 : Word) + (id 7).setWidth 16 = BitVec.ofNat 16 (increment id) := by
    apply BitVec.eq_of_toNat_eq
    simp [increment]
  rw [pingAfter, pingAfter, hword, BitVec.add_assoc, ← BitVec.ofNat_add, Nat.succ_mul,
    Nat.add_comm (k * increment id)]

theorem map_pingAfter_succ (id : Fin 8 → Byte) (addr : Word) (n : ℕ) :
    (List.range (n + 1)).map (pingAfter id addr) =
      pingAfter id addr 0 ::
        (List.range n).map (pingAfter id (addr + (1 + (id 7).setWidth 16))) := by
  rw [List.range_succ_eq_map, List.map_cons, List.map_map]
  congr 1
  apply List.map_congr_left
  intro k _
  exact pingAfter_succ id addr k

/-! ### The loop -/

theorem collisions_acknowledged {status : Byte} (h : status = nwkSuccessStatus)
    (statuses : List Byte) : collisions (status :: statuses) = collisions statuses + 1 := by
  simp [collisions, h]

theorem collisions_free {status : Byte} (h : status ≠ nwkSuccessStatus) (statuses : List Byte) :
    collisions (status :: statuses) = 0 := by
  simp [collisions, h]

theorem retry_acknowledged (id : Fin 8 → Byte) {status : Byte} (h : status = nwkSuccessStatus)
    (s : MeshControl) :
    (s.ping.pingCb status).retry id =
      { s with
        pings := s.pings ++ [s.packet], waitingAddrConfirm := false, addrAssignSuccess := false
        genAddr := s.genAddr + (1 + (id 7).setWidth 16) } := by
  rw [pingCb, if_pos h]
  rfl

theorem retry_free (id : Fin 8 → Byte) {status : Byte} (h : status ≠ nwkSuccessStatus)
    (s : MeshControl) :
    (s.ping.pingCb status).retry id =
      { s with
        pings := s.pings ++ [s.packet], waitingAddrConfirm := false
        addrAssignSuccess := true, shortAddr := s.genAddr } := by
  rw [pingCb, if_neg h]
  rfl

theorem assignLoop_done (id : Fin 8 → Byte) (statuses : List Byte) (s : MeshControl)
    (h : s.addrAssignSuccess = true) : assignLoop id statuses s = (some s.shortAddr, s) := by
  cases statuses with
  | nil => rw [assignLoop, if_pos h]
  | cons status statuses => rw [assignLoop, if_pos h]

/-- Each collision moves the address by the increment, and the first ping that is not
acknowledged ends the loop. -/
theorem assignLoop_pings (id : Fin 8 → Byte) (statuses : List Byte) (s : MeshControl)
    (h : s.addrAssignSuccess = false) :
    (assignLoop id statuses s).2.pings =
        s.pings ++ (List.range (collisions statuses + 1)).map (pingAfter id s.genAddr) ∧
      ∀ a ∈ (assignLoop id statuses s).1,
        a = (pingAfter id s.genAddr (collisions statuses)).message.dstAddr := by
  induction statuses generalizing s with
  | nil =>
    rw [assignLoop, if_neg (Bool.not_eq_true _ ▸ h)]
    constructor
    · rw [collisions, List.takeWhile_nil, List.length_nil, Nat.zero_add, List.range_one,
        List.map_singleton, pingAfter_zero]
      rfl
    · exact fun a ha => absurd ha (Option.not_mem_none a)
  | cons status statuses ih =>
    rw [assignLoop, if_neg (Bool.not_eq_true _ ▸ h)]
    by_cases hstatus : status = nwkSuccessStatus
    · rw [retry_acknowledged id hstatus, collisions_acknowledged hstatus]
      rcases ih { s with
          pings := s.pings ++ [s.packet], waitingAddrConfirm := false, addrAssignSuccess := false
          genAddr := s.genAddr + (1 + (id 7).setWidth 16) } rfl with ⟨hpings, hreturned⟩
      constructor
      · rw [hpings, map_pingAfter_succ id s.genAddr, pingAfter_zero, List.append_assoc,
          List.singleton_append]
      · intro a ha
        rw [pingAfter_succ]
        exact hreturned a ha
    · rw [retry_free id hstatus, collisions_free hstatus, assignLoop_done _ _ _ rfl, Nat.zero_add,
        List.range_one, List.map_singleton, pingAfter_zero]
      constructor
      · rfl
      · exact fun a ha => (Option.some.inj ha).symm

/-! ### The automatic range -/

theorem increment_le (id : Fin 8 → Byte) : increment id ≤ 256 := by
  have := (id 7).isLt
  rw [increment]
  omega

theorem firstAddr_ge (id : Fin 8 → Byte) : 0x0100 ≤ (firstAddr id).toNat := by
  simp only [firstAddr]
  split
  case isTrue h =>
    have hlt : (calcrc id).toNat < 256 := h
    change 0x0100 ≤ ((calcrc id).toNat + 256) % 2 ^ 16
    omega
  case isFalse h =>
    have hge : ¬ (calcrc id).toNat < 256 := h
    omega

/-- Steps of at most 256 from an automatic address meet the 258 other addresses before they
get back to the range. -/
theorem all_automatic_iff {first step : ℕ} (hfirst : 0x0100 ≤ first) (hlt : first < 2 ^ 16)
    (hstep : step ≤ 256) (count : ℕ) :
    (∀ k ≤ count, 0x0100 ≤ (first + k * step) % 2 ^ 16 ∧ (first + k * step) % 2 ^ 16 ≤ 0xFFFD) ↔
      first + count * step ≤ 0xFFFD := by
  constructor
  · intro hall
    induction count with
    | zero =>
      have hzero := hall 0 (le_refl 0)
      omega
    | succ count ih =>
      have hprev := ih (fun k hk => hall k (Nat.le_succ_of_le hk))
      have hlast := hall (count + 1) (le_refl _)
      rw [Nat.succ_mul] at hlast ⊢
      omega
  · intro hend k hk
    have hle : k * step ≤ count * step := Nat.mul_le_mul_right step hk
    omega

theorem automatic_pingAfter_iff (id : Fin 8 → Byte) (addr : Word) (k : ℕ) :
    Automatic (pingAfter id addr k).message.dstAddr ↔
      0x0100 ≤ (addr.toNat + k * increment id) % 2 ^ 16 ∧
        (addr.toNat + k * increment id) % 2 ^ 16 ≤ 0xFFFD := by
  rw [Automatic, pingAfter, BitVec.toNat_add, BitVec.toNat_ofNat, Nat.add_mod_mod]

/-- All addresses are automatic exactly when the address reached by the collisions, computed
without wrapping, is not past the end of the range. -/
theorem assignAddr_inRange_iff (id : Fin 8 → Byte) (statuses : List Byte) :
    InRange (init.assignAddr id statuses) ↔
      (firstAddr id).toNat + collisions statuses * increment id ≤ 0xFFFD := by
  have hloop := assignLoop_pings id statuses { init with genAddr := firstAddr id } rfl
  rw [← all_automatic_iff (firstAddr_ge id) (firstAddr id).isLt (increment_le id)]
  simp only [← automatic_pingAfter_iff]
  rw [InRange, assignAddr, hloop.1]
  constructor
  · intro h k hk
    apply h.1
    apply List.mem_append_right
    exact List.mem_map_of_mem (List.mem_range.mpr (Nat.lt_succ_of_le hk))
  · intro h
    constructor
    · intro p hp
      rcases List.mem_append.mp hp with hp | hp
      · exact absurd hp List.not_mem_nil
      · rcases List.mem_map.mp hp with ⟨k, hk, rfl⟩
        exact h k (Nat.le_of_lt_succ (List.mem_range.mp hk))
    · intro a ha
      rw [hloop.2 a ha]
      exact h _ (le_refl _)

/-- The EUI 00-00-00-00-00-00-84-CF, whose checksum is the broadcast address. -/
theorem not_inRange :
    ¬ ∀ (id : Fin 8 → Byte) (statuses : List Byte), InRange (init.assignAddr id statuses) := by
  intro hall
  have hrun := hall (fun i => [0, 0, 0, 0, 0, 0, 0x84#8, 0xCF#8].getD i.val 0) []
  have hping := hrun.1 ⟨⟨broadcast, meshAddrEndpoint, meshAddrEndpoint, []⟩, nwkOptAckRequest⟩
    (by decide +kernel)
  exact absurd hping.2 (by decide)

end MeshControl

end Aquila.Mesh
