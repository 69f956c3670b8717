import Aquila.Library.Memory
import Aquila.Protocol.Node

/-! # The buffers of an emission

`emit` builds its packet in one buffer and `send` copies it to another, behind the
version. A name is left out when it does not fit, but its length is still part of the
size that `send` is given.
-/

namespace Aquila.Protocol
open Library

variable {σ : Type}

/-- A byte of `packet` in `emit`, or of `data` in `send`, that is written or read. -/
inductive BufferAccess where
  | writePacket (i : ℕ)
  | readPacket (i : ℕ)
  | writeData (i : ℕ)
  | readData (i : ℕ)
  deriving DecidableEq

/-- Both buffers have `AQUILAMESH_MAXPAYLOAD` bytes. -/
def BufferAccess.Inside : BufferAccess → Prop
  | .writePacket i => i < Mesh.maxPayload
  | .readPacket i => i < Mesh.maxPayload
  | .writeData i => i < Mesh.maxPayload
  | .readData i => i < Mesh.maxPayload

/-- The write that initialises the byte that is read. -/
def BufferAccess.initialiser : BufferAccess → Option BufferAccess
  | .readPacket i => some (.writePacket i)
  | .readData i => some (.writeData i)
  | _ => none

def storeBytes (access : ℕ → BufferAccess) (buffer : Memory Byte) (index : ℕ)
    (bytes : List Byte) : Traced BufferAccess (Memory Byte) := do
  Traced.touchBlock (fun i => access (index + i)) bytes.length
  pure (buffer.store index bytes)

/-- `AquilaProtocol::send`, with the bytes of `data` that are transmitted. -/
def sendBuffer (version : Byte) (address : Word) (command : Memory Byte) (size : Byte)
    (stack : Memory Byte) : Traced BufferAccess Sent := do
  let data ← storeBytes .writeData stack 0 [version]
  Traced.touchBlock .readPacket size.toNat
  let data ← storeBytes .writeData data 1 (command.load 0 size.toNat)
  Traced.touchBlock .readData (size + 1).toNat
  pure
    ⟨⟨address, protocolEndpoint, protocolEndpoint, data.load 0 (size + 1).toNat⟩,
      if address = Mesh.broadcast then 0 else nwkOptAckRequest⟩

/-- The version and the command, cut to the size of the packet. -/
theorem sendBuffer_value (version : Byte) (address : Word) (command : Memory Byte) (size : Byte)
    (stack : Memory Byte) :
    (sendBuffer version address command size stack).value =
      ⟨⟨address, protocolEndpoint, protocolEndpoint,
        (version :: command.load 0 size.toNat).take (size + 1).toNat⟩,
        if address = Mesh.broadcast then 0 else nwkOptAckRequest⟩ := by
  have hsize : (size + 1).toNat ≤ (version :: command.load 0 size.toNat).length := by
    rw [List.length_cons, Memory.length_load]
    exact Nat.mod_le _ _
  rw [← Memory.load_store_take stack 0 _ hsize]
  rfl

namespace Node

/-- `emit` up to its call of `send`: the packet, and the size it calls `send` with. -/
def fillPacket (n : Node σ) (e : Emission) : Traced BufferAccess (Memory Byte × Byte) := do
  let control : Byte := 0x06#8 ||| (if e.hasParam then 0x08#8 else 0) ||| 0x10#8
  let packet ← storeBytes .writePacket (fun i => e.stack i.toNat) 0 [control]
  let packet ← storeBytes .writePacket packet 1 [e.event]
  let packet ← if e.hasParam then storeBytes .writePacket packet 2 [e.param] else pure packet
  let index := 2 + e.hasParam.toNat
  let packet ← storeBytes .writePacket packet index (List.ofFn n.euiAddress)
  let index := index + euiAddressLen
  match n.events e.event.toNat with
  | none => pure (packet, BitVec.ofNat 8 index)
  | some description =>
    let descLen := BitVec.ofNat 8 description.length
    if descLen.toNat < Mesh.maxPayload - (index + 1) then do
      let packet ← storeBytes .writePacket packet index [descLen]
      let packet ← storeBytes .writePacket packet (index + 1) (description.take descLen.toNat)
      pure (packet, BitVec.ofNat 8 (index + 1 + descLen.toNat))
    else pure (packet, BitVec.ofNat 8 (index + descLen.toNat))

/-- `emit` and the `send` it calls, on buffers of any contents. -/
def emitBuffers (n : Node σ) (e : Emission) (stack : Memory Byte) : Traced BufferAccess Sent := do
  let (packet, size) ← n.fillPacket e
  sendBuffer n.version e.dest packet size stack

def unnamed (n : Node σ) (event : Byte) : Node σ :=
  { n with events := Function.update n.events event.toNat none }

def namedSize (e : Emission) (name : CString) : ℕ :=
  1 + (2 + e.hasParam.toNat + euiAddressLen) + 1 + name.length

/-- What is asked of the emission of an event with the given name. -/
structure EmitsSafely (n : Node σ) (e : Emission) (stack : Memory Byte) (name : CString) :
    Prop where
  inside : (n.emitBuffers e stack).Within BufferAccess.Inside
  initialised : Preceded BufferAccess.initialiser (n.emitBuffers e stack).accesses
  payload_le : (n.emitBuffers e stack).value.message.payload.length ≤ Mesh.maxPayload
  left_out : Mesh.maxPayload < namedSize e name →
    (n.emitBuffers e stack).value = ((n.unnamed e.event).emitBuffers e stack).value

/-! ### The bytes that are written and sent -/

def header (n : Node σ) (e : Emission) : List Byte :=
  (0x06#8 ||| (if e.hasParam then 0x08#8 else 0) ||| 0x10#8) :: e.event ::
    ((if e.hasParam then [e.param] else []) ++ List.ofFn n.euiAddress)

def written (n : Node σ) (e : Emission) : List Byte :=
  match n.events e.event.toNat with
  | none => n.header e
  | some description =>
    let descLen := BitVec.ofNat 8 description.length
    if descLen.toNat < Mesh.maxPayload - ((n.header e).length + 1) then
      n.header e ++ descLen :: description.take descLen.toNat
    else n.header e

def skipped (n : Node σ) (e : Emission) : ℕ :=
  match n.events e.event.toNat with
  | none => 0
  | some description =>
    let descLen := BitVec.ofNat 8 description.length
    if descLen.toNat < Mesh.maxPayload - ((n.header e).length + 1) then 0 else descLen.toNat

theorem length_header (n : Node σ) (e : Emission) :
    (n.header e).length = 2 + e.hasParam.toNat + euiAddressLen := by
  cases h : e.hasParam with
  | true => simp [header, h, euiAddressLen]
  | false => simp [header, h, euiAddressLen]

theorem storeBytes_bind {α : Type} (access : ℕ → BufferAccess) (buffer : Memory Byte)
    (as bs : List Byte) {i j : ℕ} (h : j = i + as.length)
    (f : Memory Byte → Traced BufferAccess α) :
    (storeBytes access buffer i as >>= fun b => storeBytes access b j bs >>= f) =
      storeBytes access buffer i (as ++ bs) >>= f := by
  subst h
  have hvalue : (buffer.store i as).store ↑(i + as.length) bs = buffer.store i (as ++ bs) := by
    rw [Memory.store_append, Nat.cast_add]
  have haccesses : (List.range as.length).map (fun k => access (i + k)) ++
      (List.range bs.length).map (fun k => access (i + as.length + k)) =
        (List.range (as ++ bs).length).map (fun k => access (i + k)) := by
    rw [List.length_append, List.range_add, List.map_append, List.map_map]
    congr 1
    apply List.map_congr_left
    intro k _
    rw [Function.comp_apply, Nat.add_assoc]
  change Traced.mk _ _ = Traced.mk _ _
  simp only [storeBytes, Traced.value_bind, Traced.value_pure, Traced.accesses_bind,
    Traced.accesses_pure, Traced.accesses_touchBlock, List.append_nil, hvalue, ← haccesses,
    List.append_assoc]

theorem fillPacket_header (n : Node σ) (e : Emission) :
    n.fillPacket e = (do
      let packet ← storeBytes .writePacket (fun i => e.stack i.toNat) 0 (n.header e)
      let index := (n.header e).length
      match n.events e.event.toNat with
      | none => pure (packet, BitVec.ofNat 8 index)
      | some description =>
        let descLen := BitVec.ofNat 8 description.length
        if descLen.toNat < Mesh.maxPayload - (index + 1) then do
          let packet ← storeBytes .writePacket packet index [descLen]
          let packet ← storeBytes .writePacket packet (index + 1) (description.take descLen.toNat)
          pure (packet, BitVec.ofNat 8 (index + 1 + descLen.toNat))
        else pure (packet, BitVec.ofNat 8 (index + descLen.toNat))) := by
  rw [length_header]
  cases hparam : e.hasParam with
  | true =>
    simp only [fillPacket, header, hparam, if_true]
    rw [storeBytes_bind, storeBytes_bind, storeBytes_bind]
    · rfl
    all_goals rfl
  | false =>
    simp only [fillPacket, header, hparam, Bool.false_eq_true, if_false, Traced.pure_bind]
    rw [storeBytes_bind, storeBytes_bind]
    · rfl
    all_goals rfl

theorem fillPacket_eq (n : Node σ) (e : Emission) :
    n.fillPacket e = (do
      let packet ← storeBytes .writePacket (fun i => e.stack i.toNat) 0 (n.written e)
      pure (packet, BitVec.ofNat 8 ((n.written e).length + n.skipped e))) := by
  rw [fillPacket_header]
  cases hname : n.events e.event.toNat with
  | none => simp only [written, skipped, hname, Nat.add_zero]
  | some description =>
    simp only [written, skipped, hname]
    split
    case isTrue hfits =>
      have hdescLen : (BitVec.ofNat 8 description.length).toNat ≤ description.length := by
        rw [BitVec.toNat_ofNat]
        exact Nat.mod_le _ _
      rw [storeBytes_bind, storeBytes_bind]
      · rw [List.append_assoc, List.singleton_append, List.length_append, List.length_cons,
          List.length_take, Nat.min_eq_left hdescLen, Nat.add_zero, Nat.add_right_comm]
        rfl
      · rw [List.length_append, Nat.zero_add]
        rfl
      · rw [Nat.zero_add]
    case isFalse => rfl

/-- What `emit` does not write of the bytes it sends is what the buffer held before. -/
theorem emitCommand_eq (n : Node σ) (e : Emission) :
    n.emitCommand e = n.written e ++
      (List.range (n.skipped e)).map (fun i => e.stack ((n.written e).length + i)) := by
  rw [emitCommand]
  cases hname : n.events e.event.toNat with
  | none => simp [written, skipped, hname, header]
  | some description =>
    simp only [written, skipped, hname]
    change (if _ < Mesh.maxPayload - ((n.header e).length + 1) then n.header e ++ _
      else n.header e ++ _) = _
    split
    case isTrue => rw [List.range_zero, List.map_nil, List.append_nil]
    case isFalse => rfl

theorem length_emitCommand (n : Node σ) (e : Emission) :
    (n.emitCommand e).length = (n.written e).length + n.skipped e := by
  rw [emitCommand_eq, List.length_append, List.length_map, List.length_range]

/-- The command that `send` copies is the one `emit` is modelled to build. -/
theorem load_fillPacket (n : Node σ) (e : Emission) :
    (n.fillPacket e).value.1.load 0 ((n.written e).length + n.skipped e) = n.emitCommand e := by
  rw [fillPacket_eq, emitCommand_eq, Memory.load_add]
  change (Memory.store _ 0 _).load 0 _ ++ (Memory.store _ 0 _).load _ _ = _
  rw [Memory.load_store, Memory.load_store_after _ _ _ le_rfl]
  congr 1
  apply List.map_congr_left
  intro i _
  exact congrArg e.stack (by omega)

theorem emitBuffers_value (n : Node σ) (e : Emission) (stack : Memory Byte) :
    (n.emitBuffers e stack).value = send n.version e.dest (n.emitCommand e) := by
  have hlength := n.length_emitCommand e
  have hsize : (n.fillPacket e).value.2 = BitVec.ofNat 8 (n.emitCommand e).length := by
    rw [fillPacket_eq, hlength]
    rfl
  have hle : (BitVec.ofNat 8 (n.emitCommand e).length).toNat ≤
      (n.written e).length + n.skipped e := by
    rw [← hlength]
    exact Nat.mod_le _ _
  change (sendBuffer _ _ (n.fillPacket e).value.1 (n.fillPacket e).value.2 stack).value = _
  rw [sendBuffer_value, hsize, ← Memory.take_load _ _ hle, load_fillPacket]
  rfl

theorem emitBuffers_accesses (n : Node σ) (e : Emission) (stack : Memory Byte) :
    let size := BitVec.ofNat 8 ((n.written e).length + n.skipped e)
    (n.emitBuffers e stack).accesses =
      (List.range (n.written e).length).map .writePacket ++ [.writeData 0] ++
        (List.range size.toNat).map .readPacket ++
          (List.range size.toNat).map (fun i => .writeData (1 + i)) ++
            (List.range (size + 1).toNat).map .readData := by
  intro size
  rw [emitBuffers, fillPacket_eq]
  simp only [sendBuffer, storeBytes, Traced.accesses_bind, Traced.accesses_pure,
    Traced.accesses_touchBlock, Traced.value_bind, Traced.value_pure, Memory.length_load,
    List.append_nil, List.append_assoc, Nat.zero_add]
  rfl

theorem length_header_le (n : Node σ) (e : Emission) : (n.header e).length ≤ 11 := by
  rw [length_header]
  cases e.hasParam <;> decide

theorem written_skipped (n : Node σ) (e : Emission) (name : CString)
    (hname : n.events e.event.toNat = some name) (hlen : name.length ≤ 255) :
    (namedSize e name ≤ Mesh.maxPayload → n.skipped e = 0 ∧
        n.written e = n.header e ++ BitVec.ofNat 8 name.length :: name) ∧
      (Mesh.maxPayload < namedSize e name → n.skipped e = name.length ∧
        n.written e = n.header e) := by
  have hdescLen : (BitVec.ofNat 8 name.length).toNat = name.length :=
    Nat.mod_eq_of_lt (by omega)
  have hheader := n.length_header e
  have hsize : namedSize e name = 1 + (n.header e).length + 1 + name.length := by
    rw [namedSize, hheader]
  have hle := n.length_header_le e
  have hmax : Mesh.maxPayload = 105 := rfl
  constructor
  · intro hfits
    have hif : name.length < Mesh.maxPayload - ((n.header e).length + 1) := by omega
    simp only [skipped, written, hname, hdescLen, if_pos hif, List.take_length, and_self]
  · intro hlong
    have hif : ¬ name.length < Mesh.maxPayload - ((n.header e).length + 1) := by omega
    simp only [skipped, written, hname, hdescLen, if_neg hif, and_self]

theorem emitsSafely_of_fits (n : Node σ) (e : Emission) (stack : Memory Byte) (name : CString)
    (hname : n.events e.event.toNat = some name) (hlen : name.length ≤ 255)
    (hfits : namedSize e name ≤ Mesh.maxPayload) : n.EmitsSafely e stack name := by
  rcases (n.written_skipped e name hname hlen).1 hfits with ⟨hskipped, hwritten⟩
  have hlength : (n.written e).length + 1 = namedSize e name := by
    rw [hwritten, List.length_append, List.length_cons, length_header, namedSize]
    omega
  have hmax : Mesh.maxPayload = 105 := rfl
  have hsize : (BitVec.ofNat 8 ((n.written e).length + n.skipped e)).toNat =
      (n.written e).length := by
    rw [hskipped, Nat.add_zero]
    exact Nat.mod_eq_of_lt (by omega)
  have hnext : (BitVec.ofNat 8 ((n.written e).length + n.skipped e) + 1).toNat =
      (n.written e).length + 1 := by
    rw [BitVec.toNat_add, hsize]
    change ((n.written e).length + 1) % 256 = _
    omega
  have haccesses := n.emitBuffers_accesses e stack
  dsimp only at haccesses
  rw [hsize, hnext] at haccesses
  constructor
  case inside =>
    rw [Traced.Within, haccesses]
    simp only [List.forall_mem_append, List.forall_mem_map, List.mem_range,
      List.forall_mem_singleton, BufferAccess.Inside]
    refine ⟨⟨⟨⟨?_, by omega⟩, ?_⟩, ?_⟩, ?_⟩ <;> intro i hi <;> omega
  case initialised =>
    rw [haccesses]
    apply Preceded.append
    · apply Preceded.append
      · apply Preceded.append
        · apply preceded_of_none
          intro access hmem
          simp only [List.mem_append, List.mem_map, List.mem_singleton] at hmem
          rcases hmem with ⟨i, _, rfl⟩ | rfl
          · rfl
          · rfl
        · simp [BufferAccess.initialiser]
      · simp [BufferAccess.initialiser]
    · -- byte 0 is the version, and byte `i + 1` was copied from byte `i` of the packet
      intro access hmem d hd
      simp only [List.mem_map, List.mem_range] at hmem
      rcases hmem with ⟨i, hi, rfl⟩
      cases hd
      cases i with
      | zero => simp
      | succ i => simp [Nat.add_comm i 1, show i < (n.written e).length by omega]
  case payload_le =>
    rw [emitBuffers_value, length_send, length_emitCommand]
    omega
  case left_out => exact fun hlong => absurd hfits (not_le.mpr hlong)

/-- A longer name is counted in the size of the packet without being copied to it. -/
theorem not_emitsSafely (n : Node σ) (e : Emission) (stack : Memory Byte) (name : CString)
    (hname : n.events e.event.toNat = some name) (hlen : name.length ≤ 255)
    (hlong : Mesh.maxPayload < namedSize e name) : ¬ n.EmitsSafely e stack name := by
  intro hsafe
  rcases (n.written_skipped e name hname hlen).2 hlong with ⟨hskipped, hwritten⟩
  have hsame := hsafe.left_out hlong
  rw [emitBuffers_value, emitBuffers_value] at hsame
  have hunnamed : (n.unnamed e.event).emitCommand e = n.header e := by
    simp [emitCommand, unnamed, header]
  have hlengths : (send n.version e.dest (n.emitCommand e)).message.payload.length =
      (send n.version e.dest (n.header e)).message.payload.length := by
    rw [hsame, hunnamed]
    rfl
  rw [length_send, length_send, length_emitCommand, hskipped, hwritten] at hlengths
  have hle := n.length_header_le e
  rw [namedSize, ← n.length_header e] at hlong
  have hmax : Mesh.maxPayload = 105 := rfl
  omega

/-- An emission is safe exactly if its name fits the packet. -/
theorem emitsSafely_iff (n : Node σ) (e : Emission) (stack : Memory Byte) (name : CString)
    (hname : n.events e.event.toNat = some name) (hlen : name.length ≤ 255) :
    n.EmitsSafely e stack name ↔ namedSize e name ≤ Mesh.maxPayload := by
  constructor
  · intro hsafe
    by_contra hlong
    exact n.not_emitsSafely e stack name hname hlen (not_le.mp hlong) hsafe
  · exact n.emitsSafely_of_fits e stack name hname hlen

def longNameNode (length : ℕ) : Node Unit where
  version := protocolVersion
  id := []
  name := []
  euiAddress _ := 1#8
  shortAddr := 1
  nActions := 0
  nEvents := 1
  actions _ := none
  events i := if i = 0 then some (List.replicate length 0x61#8) else none
  onSubs := []

def longNameEmission : Emission := ⟨Mesh.broadcast, 0, 0, false, fun _ => 0⟩

theorem emitsSafely_93 :
    (longNameNode 93).EmitsSafely longNameEmission (fun _ => 0) (List.replicate 93 0x61#8) :=
  (emitsSafely_iff _ _ (fun _ => 0) _ rfl (by rw [List.length_replicate]; decide)).mpr
    (by rw [namedSize, List.length_replicate]; decide)

/-- A name of 94 bytes is left out, but 94 bytes that were never written are sent. -/
theorem not_emitsSafely_94 :
    ¬ ∀ (n : Node Unit) (e : Emission) (stack : Memory Byte) (name : CString),
      n.events e.event.toNat = some name → name.length ≤ 255 → n.EmitsSafely e stack name := by
  intro hall
  have hlen : (List.replicate 94 0x61#8).length ≤ 255 := by
    rw [List.length_replicate]
    decide
  apply not_emitsSafely (longNameNode 94) longNameEmission (fun _ => 0) _ rfl hlen
  · rw [namedSize, List.length_replicate]
    decide
  · exact hall _ _ _ _ rfl hlen

end Node

end Aquila.Protocol
