import Aquila.Protocol.Packet

/-! # Bounds of the packet parser

Every branch checks the length it relies on, except that the terminator of an event
name may fall one byte past `eName`.
-/

namespace Aquila.Protocol
open Library ProtocolDB

variable (data : ℕ → Byte) (dataLen : ℕ)

theorem within_readByte_bind (i : ℕ) {α : Type} (f : Byte → Traced ParseAccess α) :
    (readByte data i >>= f).Within (ParseAccess.Inside dataLen) ↔
      i < dataLen ∧ (f (data i)).Within (ParseAccess.Inside dataLen) := by
  rw [readByte, Traced.within_bind, Traced.within_bind, Traced.within_touch,
    and_iff_left (Traced.within_pure _ _)]
  rfl

theorem within_readCommand (hasParam : Bool) :
    (readCommand data hasParam).Within (ParseAccess.Inside dataLen) ↔
      2 + hasParam.toNat < dataLen := by
  rw [readCommand, within_readByte_bind]
  cases hasParam with
  | false => exact and_iff_left (Traced.within_pure _ _)
  | true =>
    simp only [if_true, within_readByte_bind, Traced.within_pure, and_true, Bool.toNat_true]
    omega

theorem within_copyBytes (index n : ℕ) (dest : ℕ → ParseAccess) :
    (copyBytes data index n dest).Within (ParseAccess.Inside dataLen) ↔
      (n = 0 ∨ index + n ≤ dataLen) ∧ ∀ i < n, (dest i).Inside dataLen := by
  simp only [copyBytes, Traced.within_bind, Traced.within_touchBlock, Traced.within_pure, and_true]
  apply and_congr_left'
  exact forall_offset_lt_iff index n dataLen

theorem within_parseAction (hasParam : Bool) :
    (parseAction data dataLen hasParam).Within (ParseAccess.Inside dataLen) := by
  rw [parseAction]
  split
  case isTrue => exact Traced.within_pure _ _
  case isFalse h =>
    rw [Traced.within_bind, within_readCommand]
    exact ⟨by omega, Traced.within_pure _ _⟩

theorem within_parseGet (hasParam : Bool) :
    (parseGet data dataLen hasParam).Within (ParseAccess.Inside dataLen) := by
  rw [parseGet]
  split
  case isTrue => exact Traced.within_pure _ _
  case isFalse h =>
    rw [Traced.within_bind, within_readCommand]
    exact ⟨by omega, Traced.within_pure _ _⟩

theorem within_copyEntry (index : ℕ) (h : index + entryLen ≤ dataLen) :
    (copyBytes data index entryLen .entry).Within (ParseAccess.Inside dataLen) :=
  (within_copyBytes data dataLen index entryLen .entry).mpr ⟨Or.inr h, fun _ hi => hi⟩

theorem within_parsePost (hasParam hasData : Bool) :
    (parsePost data dataLen hasParam hasData).Within (ParseAccess.Inside dataLen) := by
  rw [parsePost]
  split
  case isTrue => exact Traced.within_pure _ _
  case isFalse h =>
    rw [Traced.within_bind, within_readCommand]
    refine ⟨by omega, ?_⟩
    dsimp only
    split
    case h_2 =>
      split
      case isTrue hentry =>
        rw [Traced.within_bind]
        exact ⟨within_copyEntry data dataLen 4 hentry.2.2, Traced.within_pure _ _⟩
      case isFalse => exact Traced.within_pure _ _
    case h_3 =>
      split
      case isTrue hentry =>
        rw [Traced.within_bind]
        exact ⟨within_copyEntry data dataLen 3 hentry.2.2, Traced.within_pure _ _⟩
      case isFalse => exact Traced.within_pure _ _
    case h_4 => split <;> exact Traced.within_pure _ _
    all_goals exact Traced.within_pure _ _

/-- The name is copied and terminated inside `eName` unless it fills the buffer. -/
theorem within_parseName (index : ℕ) :
    (parseName data dataLen index).Within (ParseAccess.Inside dataLen) ↔
      (index < dataLen → (data index).toNat ≤ dataLen - (index + 1) →
        (data index).toNat < eNameSize) := by
  by_cases h : index < dataLen
  · rw [parseName, if_pos h, within_readByte_bind, and_iff_right h, forall_prop_of_true h]
    by_cases hlen : (data index).toNat ≤ dataLen - (index + 1)
    · rw [if_pos hlen, forall_prop_of_true hlen]
      simp only [Traced.within_bind, within_copyBytes, Traced.within_touch, Traced.within_pure,
        and_true]
      constructor
      · exact fun hall => hall.2
      · intro hname
        refine ⟨⟨by omega, ?_⟩, hname⟩
        intro i hi
        exact hi.trans hname
    · rw [if_neg hlen]
      exact iff_of_true (Traced.within_pure _ _) (fun h' => absurd h' hlen)
  · rw [parseName, if_neg h]
    exact iff_of_true (Traced.within_pure _ _) (fun h' => absurd h' h)

def eNameIndex (hasParam : Bool) : ℕ := 3 + hasParam.toNat + euiAddressLen

theorem eNameIndex_false : eNameIndex false = 11 := rfl

theorem eNameIndex_true : eNameIndex true = 12 := rfl

theorem within_parseEvent (hasParam : Bool) :
    (parseEvent data dataLen hasParam).Within (ParseAccess.Inside dataLen) ↔
      (eNameIndex hasParam < dataLen →
        (data (eNameIndex hasParam)).toNat ≤ dataLen - (eNameIndex hasParam + 1) →
        (data (eNameIndex hasParam)).toNat < eNameSize) := by
  rw [parseEvent]
  split
  case isTrue h =>
    refine iff_of_true (Traced.within_pure _ _) (fun h' => ?_)
    simp only [eNameIndex] at h'
    omega
  case isFalse h =>
    have hcommand : (readCommand data hasParam).Within (ParseAccess.Inside dataLen) := by
      rw [within_readCommand]
      omega
    have haddress : (copyBytes data (3 + hasParam.toNat) euiAddressLen .rxEUIAddress).Within
        (ParseAccess.Inside dataLen) := by
      rw [within_copyBytes]
      exact ⟨by omega, fun _ hi => hi⟩
    simp only [Traced.within_bind, hcommand, haddress, within_parseName, Traced.within_pure,
      true_and, and_true]
    rfl

/-- The event packets whose name fills `eName`, leaving no room for its terminator. -/
structure FillsName (version : Byte) (data : ℕ → Byte) (size : Byte) : Prop where
  size_eq : size.toNat = Mesh.maxPayload
  version_eq : data 0 = version
  isEvent : commandType (data 1) = .event
  noParam : hasParamFlag (data 1) = false
  length_eq : (data (eNameIndex false)).toNat = eNameSize

theorem not_fillsName {version : Byte} {data : ℕ → Byte} {size : Byte} {type : CommandType}
    (htype : commandType (data 1) = type) (h : type ≠ .event) :
    ¬ FillsName version data size :=
  fun hfills => h (htype.symm.trans hfills.isEvent)

theorem eNameSize_eq : eNameSize = 93 := rfl

theorem maxPayload_eq : Mesh.maxPayload = 105 := rfl

/-- Only a name that fills `eName` to the last byte of a full packet is not contained. -/
theorem fillsName_iff (version : Byte) (data : ℕ → Byte) (size : Byte)
    (h : size.toNat ≤ Mesh.maxPayload) (hversion : data 0 = version)
    (hevent : commandType (data 1) = .event) :
    FillsName version data size ↔
      eNameIndex (hasParamFlag (data 1)) < size.toNat ∧
        (data (eNameIndex (hasParamFlag (data 1)))).toNat ≤
          size.toNat - (eNameIndex (hasParamFlag (data 1)) + 1) ∧
        eNameSize ≤ (data (eNameIndex (hasParamFlag (data 1)))).toNat := by
  rw [maxPayload_eq] at h
  constructor
  · intro hfills
    have hsize := hfills.size_eq
    have hlength := hfills.length_eq
    rw [maxPayload_eq] at hsize
    rw [hfills.noParam, hlength, eNameSize_eq, hsize]
    decide
  · rintro ⟨hindex, hremaining, hlength⟩
    cases hparam : hasParamFlag (data 1) with
    | false =>
      rw [hparam, eNameIndex_false] at hindex hremaining hlength
      rw [eNameSize_eq] at hlength
      refine ⟨?_, hversion, hevent, hparam, ?_⟩
      · rw [maxPayload_eq]
        omega
      · rw [eNameIndex_false, eNameSize_eq]
        omega
    | true =>
      rw [hparam, eNameIndex_true] at hindex hremaining hlength
      rw [eNameSize_eq] at hlength
      omega

/-- The parser stays inside the packet and its buffers exactly when the name leaves room. -/
theorem decode_inside_iff (version : Byte) (data : ℕ → Byte) (size : Byte)
    (h : size.toNat ≤ Mesh.maxPayload) :
    (decode version data size).Within (ParseAccess.Inside size.toNat) ↔
      ¬ FillsName version data size := by
  by_cases hsize : size.toNat < 2
  · rw [decode, if_pos hsize]
    refine iff_of_true (Traced.within_pure _ _) (fun hfills => ?_)
    have := hfills.size_eq
    rw [maxPayload_eq] at this
    omega
  rw [decode, if_neg hsize, within_readByte_bind, and_iff_right (by omega)]
  by_cases hversion : data 0 = version
  · rw [if_neg (not_not.mpr hversion), within_readByte_bind, and_iff_right (by omega)]
    dsimp only
    have hsecurity : ParseAccess.Inside size.toNat (.eName 0) := Nat.succ_pos 92
    rw [Traced.within_bind, Traced.within_touch, and_iff_right hsecurity]
    cases htype : commandType (data 1) with
    | event =>
      dsimp only
      rw [within_parseEvent, fillsName_iff version data size h hversion htype]
      grind
    | nack => exact iff_of_true (Traced.within_pure _ _) (not_fillsName htype (by decide))
    | ack => exact iff_of_true (Traced.within_pure _ _) (not_fillsName htype (by decide))
    | action => exact iff_of_true (within_parseAction _ _ _) (not_fillsName htype (by decide))
    | get => exact iff_of_true (within_parseGet _ _ _) (not_fillsName htype (by decide))
    | post => exact iff_of_true (within_parsePost _ _ _ _) (not_fillsName htype (by decide))
    | custom => exact iff_of_true (Traced.within_pure _ _) (not_fillsName htype (by decide))
    | undefined => exact iff_of_true (Traced.within_pure _ _) (not_fillsName htype (by decide))
  · rw [if_pos hversion]
    exact iff_of_true (Traced.within_pure _ _) (fun hfills => hversion hfills.version_eq)

def longNamePacket (i : ℕ) : Byte :=
  if i = 0 then protocolVersion else if i = 1 then 0x06#8 else if i = 11 then 93#8 else 0x61#8

/-- One byte less of it is parsed in bounds. -/
theorem decode_inside_truncated :
    (decode protocolVersion longNamePacket 104#8).Within (ParseAccess.Inside 104) :=
  (decode_inside_iff protocolVersion longNamePacket 104#8 (by decide)).mpr
    (fun hfills => absurd hfills.size_eq (by decide))

/-- Its terminator is written one past the end of `eName`. -/
theorem decode_longNamePacket :
    ¬ ∀ (data : ℕ → Byte) (size : Byte), size.toNat ≤ Mesh.maxPayload →
      (decode protocolVersion data size).Within (ParseAccess.Inside size.toNat) := by
  intro hall
  have hterminator : .eName 93 ∈ (decode protocolVersion longNamePacket 105#8).accesses := by
    decide +kernel
  exact Nat.lt_irrefl 93 (hall longNamePacket 105#8 (by decide) _ hterminator)

end Aquila.Protocol
