import Aquila.Library.Progression
import Aquila.Mesh.Control
import Mathlib.Data.Nat.Prime.Basic

/-! # Probing for a free address

Any status but success ends the search, also one of a ping that never went out. The addresses
tried are a progression modulo `2 ^ 16`, and not every step meets every address.
-/

namespace Aquila.Mesh
open Library

/-- `NWK_Status_t` -/
inductive NwkStatus where
  | success
  | error
  | outOfMemory
  | noAck
  | noRoute
  | phyChannelAccessFailure
  | phyNoAck
  deriving DecidableEq

/-- The value in `NWK_DataReq_t`. -/
def NwkStatus.code : NwkStatus → Byte
  | .success => nwkSuccessStatus
  | .error => 0x01#8
  | .outOfMemory => 0x02#8
  | .noAck => 0x10#8
  | .noRoute => 0x11#8
  | .phyChannelAccessFailure => 0x20#8
  | .phyNoAck => 0x21#8

/-- The frame was transmitted and not acknowledged; `noRoute` is given to frames that wait for
a route and are not sent. -/
def NwkStatus.unanswered : NwkStatus → Bool
  | .noAck => true
  | .phyNoAck => true
  | _ => false

theorem NwkStatus.code_eq_success_iff (status : NwkStatus) :
    status.code = nwkSuccessStatus ↔ status = .success := by
  cases status with
  | success => exact iff_of_true rfl rfl
  | error => exact iff_of_false (by decide) NwkStatus.noConfusion
  | outOfMemory => exact iff_of_false (by decide) NwkStatus.noConfusion
  | noAck => exact iff_of_false (by decide) NwkStatus.noConfusion
  | noRoute => exact iff_of_false (by decide) NwkStatus.noConfusion
  | phyChannelAccessFailure => exact iff_of_false (by decide) NwkStatus.noConfusion
  | phyNoAck => exact iff_of_false (by decide) NwkStatus.noConfusion

namespace MeshControl

def answered (statuses : List NwkStatus) : ℕ := collisions (statuses.map NwkStatus.code)

def assign (id : Fin 8 → Byte) (statuses : List NwkStatus) : Option Word × MeshControl :=
  init.assignAddr id (statuses.map NwkStatus.code)

def Confirmed (statuses : List NwkStatus) (result : Option Word × MeshControl) (a : Word)
    (status : NwkStatus) : Prop :=
  ∃ (k : ℕ) (p : Outgoing), result.2.pings[k]? = some p ∧ statuses[k]? = some status ∧
    p.message.dstAddr = a

/-- The address returned is known to be free: a ping to it was transmitted and nobody answered,
and no ping to it was answered. -/
structure Evident (statuses : List NwkStatus) (result : Option Word × MeshControl) : Prop where
  probed : ∀ a ∈ result.1, ∃ status, Confirmed statuses result a status ∧ status.unanswered = true
  silent : ∀ a ∈ result.1, ¬ Confirmed statuses result a .success

def probe (id : Fin 8 → Byte) (k : ℕ) : Word := (pingAfter id (firstAddr id) k).message.dstAddr

theorem toNat_probe (id : Fin 8 → Byte) (k : ℕ) :
    (probe id k).toNat = ((firstAddr id).toNat + k * increment id) % 2 ^ 16 := by
  rw [probe, pingAfter, BitVec.toNat_add, BitVec.toNat_ofNat, Nat.add_mod_mod]

def period (id : Fin 8 → Byte) : ℕ := 2 ^ 16 / Nat.gcd (2 ^ 16) (increment id)

theorem probe_eq_iff (id : Fin 8 → Byte) (j k : ℕ) :
    probe id j = probe id k ↔ j ≡ k [MOD period id] := by
  rw [BitVec.toNat_eq, toNat_probe, toNat_probe, period]
  exact progression_repeats_iff _ _ j k (by decide)

/-! ### The pings and their statuses -/

theorem answered_success (statuses : List NwkStatus) :
    answered (.success :: statuses) = answered statuses + 1 :=
  collisions_acknowledged rfl _

theorem answered_other {status : NwkStatus} (h : status ≠ .success) (statuses : List NwkStatus) :
    answered (status :: statuses) = 0 :=
  collisions_free (fun hcode => h (status.code_eq_success_iff.mp hcode)) _

theorem getElem?_of_lt_answered {statuses : List NwkStatus} {k : ℕ} (h : k < answered statuses) :
    statuses[k]? = some .success := by
  induction statuses generalizing k with
  | nil => exact absurd h (Nat.not_lt_zero k)
  | cons status statuses ih =>
    by_cases hstatus : status = .success
    · rw [hstatus, answered_success] at h
      rw [hstatus]
      cases k with
      | zero => rfl
      | succ k => exact ih (Nat.lt_of_succ_lt_succ h)
    · rw [answered_other hstatus] at h
      exact absurd h (Nat.not_lt_zero k)

theorem getElem?_answered_ne {statuses : List NwkStatus} {status : NwkStatus}
    (h : statuses[answered statuses]? = some status) : status ≠ .success := by
  induction statuses with
  | nil => exact absurd h.symm (Option.some_ne_none _)
  | cons first statuses ih =>
    by_cases hfirst : first = .success
    · rw [hfirst, answered_success, List.getElem?_cons_succ] at h
      exact ih h
    · rw [answered_other hfirst, List.getElem?_cons_zero] at h
      exact Option.some.inj h ▸ hfirst

/-- The loop ends with the first status that is not success. -/
theorem assignLoop_isSome (id : Fin 8 → Byte) (statuses : List NwkStatus) (s : MeshControl)
    (h : s.addrAssignSuccess = false) :
    (assignLoop id (statuses.map NwkStatus.code) s).1.isSome ↔
      answered statuses < statuses.length := by
  induction statuses generalizing s with
  | nil =>
    rw [List.map_nil, assignLoop, if_neg (Bool.not_eq_true _ ▸ h)]
    exact iff_of_false Bool.false_ne_true (lt_irrefl 0)
  | cons status statuses ih =>
    rw [List.map_cons, assignLoop, if_neg (Bool.not_eq_true _ ▸ h), List.length_cons]
    by_cases hstatus : status = .success
    · rw [hstatus, answered_success, Nat.add_lt_add_iff_right, NwkStatus.code,
        retry_acknowledged id rfl]
      exact ih _ rfl
    · have hcode : status.code ≠ nwkSuccessStatus :=
        fun hcode => hstatus (status.code_eq_success_iff.mp hcode)
      rw [answered_other hstatus, retry_free id hcode, assignLoop_done _ _ _ rfl]
      exact iff_of_true rfl (Nat.succ_pos _)

theorem assign_some_iff (id : Fin 8 → Byte) (statuses : List NwkStatus) (a : Word) :
    (assign id statuses).1 = some a ↔
      answered statuses < statuses.length ∧ a = probe id (answered statuses) := by
  have hsome := assignLoop_isSome id statuses { init with genAddr := firstAddr id } rfl
  have hloop := assignLoop_pings id (statuses.map NwkStatus.code)
    { init with genAddr := firstAddr id } rfl
  constructor
  · intro h
    constructor
    · exact hsome.mp (Option.isSome_of_eq_some h)
    · exact hloop.2 a h
  · rintro ⟨hlt, rfl⟩
    rcases Option.isSome_iff_exists.mp (hsome.mpr hlt) with ⟨a, ha⟩
    exact ha.trans (congrArg some (hloop.2 a ha))

theorem confirmed_iff (id : Fin 8 → Byte) (statuses : List NwkStatus) (a : Word)
    (status : NwkStatus) :
    Confirmed statuses (assign id statuses) a status ↔
      ∃ k ≤ answered statuses, statuses[k]? = some status ∧ probe id k = a := by
  have hpings : (assign id statuses).2.pings =
      (List.range (answered statuses + 1)).map (pingAfter id (firstAddr id)) :=
    (assignLoop_pings id (statuses.map NwkStatus.code) { init with genAddr := firstAddr id } rfl).1
  rw [Confirmed, hpings]
  constructor
  · rintro ⟨k, p, hp, hstatus, haddr⟩
    rcases List.getElem?_eq_some_iff.mp hp with ⟨hk, hping⟩
    rw [List.getElem_map, List.getElem_range] at hping
    rw [List.length_map, List.length_range] at hk
    rw [← hping] at haddr
    exact ⟨k, Nat.le_of_lt_succ hk, hstatus, haddr⟩
  · rintro ⟨k, hk, hstatus, haddr⟩
    constructor
    constructor
    constructor
    · rw [List.getElem?_map, List.getElem?_range (Nat.lt_succ_of_le hk), Option.map_some]
    · exact ⟨hstatus, haddr⟩

/-! ### What the search shows -/

/-- Only the last status is evidence for the address returned. -/
theorem probed_iff (id : Fin 8 → Byte) (statuses : List NwkStatus) :
    (∀ a ∈ (assign id statuses).1, ∃ status, Confirmed statuses (assign id statuses) a status ∧
        status.unanswered = true) ↔
      ∀ status ∈ statuses[answered statuses]?, status.unanswered = true := by
  constructor
  · intro h status hstatus
    have hlt : answered statuses < statuses.length := (List.getElem?_eq_some_iff.mp hstatus).1
    rcases h _ ((assign_some_iff id statuses _).mpr ⟨hlt, rfl⟩) with
      ⟨other, hconfirmed, hunanswered⟩
    rcases (confirmed_iff id statuses _ other).mp hconfirmed with ⟨k, hk, hother, -⟩
    -- every ping before the last one was answered
    rcases hk.lt_or_eq with hk | rfl
    · rw [getElem?_of_lt_answered hk] at hother
      cases hother
      exact absurd hunanswered Bool.false_ne_true
    · exact Option.some.inj (hother.symm.trans hstatus) ▸ hunanswered
  · intro h a ha
    rcases (assign_some_iff id statuses a).mp ha with ⟨hlt, rfl⟩
    have hstatus := List.getElem?_eq_getElem hlt
    exact ⟨_, (confirmed_iff id statuses _ _).mpr ⟨_, le_refl _, hstatus, rfl⟩, h _ hstatus⟩

theorem period_pos (id : Fin 8 → Byte) : 0 < period id :=
  Nat.div_pos (Nat.gcd_le_left _ (by decide)) (Nat.gcd_pos_of_pos_left _ (by decide))

/-- The address returned was answered before only if the addresses have repeated. -/
theorem silent_iff (id : Fin 8 → Byte) (statuses : List NwkStatus) :
    (∀ a ∈ (assign id statuses).1, ¬ Confirmed statuses (assign id statuses) a .success) ↔
      (answered statuses < statuses.length → answered statuses < period id) := by
  constructor
  · intro h hlt
    by_contra hperiod
    have hle := Nat.le_of_not_lt hperiod
    have hk : answered statuses - period id < answered statuses := by
      have := period_pos id
      omega
    have hrepeat : probe id (answered statuses - period id) = probe id (answered statuses) := by
      rw [probe_eq_iff, Nat.modEq_iff_dvd' (Nat.sub_le _ _), Nat.sub_sub_self hle]
    exact h _ ((assign_some_iff id statuses _).mpr ⟨hlt, rfl⟩)
      ((confirmed_iff id statuses _ _).mpr ⟨_, hk.le, getElem?_of_lt_answered hk, hrepeat⟩)
  · intro h a ha hconfirmed
    rcases (assign_some_iff id statuses a).mp ha with ⟨hlt, rfl⟩
    rcases (confirmed_iff id statuses _ _).mp hconfirmed with ⟨k, hk, hsuccess, hsame⟩
    rcases hk.lt_or_eq with hk | rfl
    · have hmod := (probe_eq_iff id k (answered statuses)).mp hsame
      exact absurd (hmod.eq_of_lt_of_lt (hk.trans (h hlt)) (h hlt)) hk.ne
    · exact getElem?_answered_ne hsuccess rfl

/-- The address returned is known to be free exactly when the search did not end with a ping that
never went out, nor after the addresses had begun to repeat. -/
theorem assign_evident_iff (id : Fin 8 → Byte) (statuses : List NwkStatus) :
    Evident statuses (assign id statuses) ↔
      (∀ status ∈ statuses[answered statuses]?, status.unanswered = true) ∧
        (answered statuses < statuses.length → answered statuses < period id) := by
  rw [← probed_iff id, ← silent_iff id]
  exact ⟨fun h => ⟨h.probed, h.silent⟩, fun h => ⟨h.1, h.2⟩⟩

/-- A ping that finds the channel busy shows its address to be free. -/
theorem not_evident :
    ¬ ∀ (id : Fin 8 → Byte) (statuses : List NwkStatus), Evident statuses (assign id statuses) := by
  intro hall
  have hprobed :=
    (probed_iff 0 [.phyChannelAccessFailure]).mp (hall 0 [.phyChannelAccessFailure]).probed
  exact Bool.false_ne_true (hprobed .phyChannelAccessFailure rfl)

/-! ### The end of the search -/

/-- The status of ping `k` when the nodes at the occupied addresses answer, and no others. -/
def reply (id : Fin 8 → Byte) (occupied : Word → Bool)
    (silent : ℕ → { status : NwkStatus // status.unanswered = true }) (k : ℕ) : NwkStatus :=
  if occupied (probe id k) then .success else (silent k).val

/-- After finitely many pings the loop ends with an address that is not occupied. -/
def Finds (id : Fin 8 → Byte) (occupied : Word → Bool)
    (silent : ℕ → { status : NwkStatus // status.unanswered = true }) : Prop :=
  ∃ count a, (assign id ((List.range count).map (reply id occupied silent))).1 = some a ∧
    occupied a = false

section
variable {id : Fin 8 → Byte} {occupied : Word → Bool}
  {silent : ℕ → { status : NwkStatus // status.unanswered = true }}

theorem reply_eq_success_iff (k : ℕ) :
    reply id occupied silent k = .success ↔ occupied (probe id k) = true := by
  rw [reply]
  split
  case isTrue h => exact iff_of_true rfl h
  case isFalse h =>
    apply iff_of_false _ h
    intro hsuccess
    have hunanswered := (silent k).property
    rw [hsuccess] at hunanswered
    exact Bool.false_ne_true hunanswered

theorem getElem?_replies {count k : ℕ} (h : k < count) :
    ((List.range count).map (reply id occupied silent))[k]? =
      some (reply id occupied silent k) := by
  rw [List.getElem?_map, List.getElem?_range h, Option.map_some]

/-- The loop goes on until it meets an address that is not occupied. -/
theorem finds_iff_probe : Finds id occupied silent ↔ ∃ k, occupied (probe id k) = false := by
  constructor
  · rintro ⟨count, a, hassign, hfree⟩
    rcases (assign_some_iff id _ a).mp hassign with ⟨-, rfl⟩
    exact ⟨_, hfree⟩
  · rintro ⟨k, hfree⟩
    let statuses := (List.range (k + 1)).map (reply id occupied silent)
    have hlength : statuses.length = k + 1 := by rw [List.length_map, List.length_range]
    have hlt : answered statuses < k + 1 := by
      by_contra hge
      have hsuccess := getElem?_of_lt_answered (Nat.lt_of_succ_le (Nat.le_of_not_lt hge))
      rw [getElem?_replies (Nat.lt_succ_self k)] at hsuccess
      have hoccupied := (reply_eq_success_iff k).mp (Option.some.inj hsuccess)
      exact Bool.false_ne_true (hfree.symm.trans hoccupied)
    have hlast := getElem?_answered_ne (getElem?_replies hlt)
    rw [Ne, reply_eq_success_iff, Bool.not_eq_true] at hlast
    exact ⟨k + 1, _, (assign_some_iff id statuses _).mpr ⟨hlength ▸ hlt, rfl⟩, hlast⟩

theorem probe_visits_iff (id : Fin 8 → Byte) (a : Word) :
    (∃ k, probe id k = a) ↔
      a.toNat ≡ (firstAddr id).toNat [MOD (increment id).gcd (2 ^ 16)] := by
  rw [← progression_visits_iff _ _ _ (by decide : 0 < 2 ^ 16)]
  apply exists_congr
  intro k
  rw [BitVec.toNat_eq, toNat_probe, Nat.ModEq, Nat.mod_eq_of_lt a.isLt]

end

/-- The search ends exactly when some address congruent to the first one, modulo the greatest
common divisor of the step and `2 ^ 16`, is free. -/
theorem assign_finds_iff (id : Fin 8 → Byte) (occupied : Word → Bool)
    (silent : ℕ → { status : NwkStatus // status.unanswered = true }) :
    Finds id occupied silent ↔ ∃ a, occupied a = false ∧
      a.toNat ≡ (firstAddr id).toNat [MOD (increment id).gcd (2 ^ 16)] := by
  rw [finds_iff_probe]
  constructor
  · rintro ⟨k, hfree⟩
    exact ⟨_, hfree, (probe_visits_iff id _).mp ⟨k, rfl⟩⟩
  · rintro ⟨a, hfree, hcongr⟩
    rcases (probe_visits_iff id a).mpr hcongr with ⟨k, rfl⟩
    exact ⟨k, hfree⟩

/-- With an even last byte of the EUI the step is odd, and any free address will do. -/
theorem finds_of_even {id : Fin 8 → Byte} (heven : Even (id 7).toNat) {occupied : Word → Bool}
    (hfree : ∃ a, occupied a = false)
    (silent : ℕ → { status : NwkStatus // status.unanswered = true }) :
    Finds id occupied silent := by
  have hcoprime : (increment id).gcd (2 ^ 16) = 1 := by
    apply Nat.Coprime.pow_right
    exact Nat.coprime_two_right.mpr heven.one_add
  rcases hfree with ⟨a, hfree⟩
  have hvisits := probe_visits_iff id a
  rw [hcoprime] at hvisits
  rcases hvisits.mpr Nat.modEq_one with ⟨k, rfl⟩
  exact finds_iff_probe.mpr ⟨k, hfree⟩

/-- An EUI whose step is 256. -/
def exampleId (i : Fin 8) : Byte := if i.val = 7 then 0xFF#8 else 0#8

/-- The 256 addresses that end in `F0` are occupied. All of them can answer, the broadcast
address and the address 0 of the searching node not being among them. -/
theorem not_finds :
    ¬ ∀ (id : Fin 8 → Byte) (occupied : Word → Bool)
      (silent : ℕ → { status : NwkStatus // status.unanswered = true }),
      (∃ a, Automatic a ∧ occupied a = false) → Finds id occupied silent := by
  intro hall
  let occupied (a : Word) : Bool := decide (a.toNat % 256 = 0xF0)
  have hgcd : (increment exampleId).gcd (2 ^ 16) = 256 := by decide +kernel
  have hfirst : (firstAddr exampleId).toNat % 256 = 0xF0 := by decide +kernel
  have hfree : ∃ a, Automatic a ∧ occupied a = false :=
    ⟨0x0100#16, ⟨by decide, by decide⟩, by decide⟩
  rcases finds_iff_probe.mp (hall exampleId occupied (fun _ => ⟨.noAck, rfl⟩) hfree) with
    ⟨k, hprobe⟩
  have hcongr := (probe_visits_iff exampleId _).mp ⟨k, rfl⟩
  rw [hgcd, Nat.ModEq, hfirst] at hcongr
  exact of_decide_eq_false hprobe hcongr

end MeshControl

end Aquila.Mesh
