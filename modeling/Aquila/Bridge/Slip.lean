import Aquila.Persist
import Aquila.Library.Memory
import Aquila.Library.Stuffing
import Aquila.Library.Traced

/-! # The Slip serial framing

The receiver decodes a frame in place, one stale byte past its end, and reports one
byte less than it decoded. `buffer` and `bufCopy` are the memory around their first
cells. No index leaves the range of `uint8_t`, so indices are natural numbers.
-/

namespace Aquila.Bridge
open Library

/-- `SLIP_END`, `SLIP_ESC`, `SLIP_ESC_END` and `SLIP_ESC_ESC` -/
def slipCode : Stuffing Byte where
  stop := 0xC0#8
  esc := 0xDB#8
  escStop := 0xDC#8
  escEsc := 0xDD#8
  esc_ne_stop := by decide
  escStop_ne_stop := by decide
  escEsc_ne_stop := by decide
  escEsc_ne_escStop := by decide

def slipMaxSize : ℕ := 255

/-- `SLIP_STATE_IDLE`, `SLIP_STATE_RECEIVING` and `SLIP_STATE_ERROR` -/
inductive SlipState where
  | idle
  | receiving
  | error
  deriving DecidableEq

/-- The receiver, with the static copy of `parseEscapes`. -/
structure Slip where
  buffer : Memory Byte
  bufIndex : ℕ
  state : SlipState
  bufCopy : Memory Byte

inductive SlipAccess where
  | buffer (i : ℤ)
  | bufCopy (i : ℤ)

structure Delivery where
  data : Memory Byte
  size : Byte

namespace Slip

/-- `Slip::Slip`, around the memory it finds. -/
def init (buffer bufCopy : Memory Byte) : Slip where
  buffer := buffer
  bufIndex := 0
  state := .idle
  bufCopy := bufCopy

/-- `buffer[bufIndex++] = b` -/
def push (s : Slip) (b : Byte) : Slip :=
  { s with buffer := Function.update s.buffer s.bufIndex b, bufIndex := s.bufIndex + 1 }

/-- The loop of `parseEscapes` over the copy, with `left` turns allowed. -/
def parseLoop (size : ℕ) : (left i : ℕ) → Slip → Traced SlipAccess Slip
  | 0, _, s => pure s
  | left + 1, i, s =>
    if i < size then do
      Traced.touch (.bufCopy i)
      if s.bufCopy i = slipCode.esc then do
        Traced.touch (.bufCopy (i + 1))
        Traced.touch (.buffer s.bufIndex)
        parseLoop size left (i + 2) (s.push (slipCode.unescape (s.bufCopy (i + 1))))
      else do
        Traced.touch (.buffer s.bufIndex)
        parseLoop size left (i + 1) (s.push (s.bufCopy i))
    else pure s

/-- `Slip::parseEscapes` -/
def parseEscapes (s : Slip) : Traced SlipAccess Slip := do
  let size := s.bufIndex + 1
  Traced.touchBlock (fun i => .buffer i) size
  Traced.touchBlock (fun i => .bufCopy i) size
  let s := { s with bufCopy := s.bufCopy.store 0 (s.buffer.load 0 size), bufIndex := 0 }
  parseLoop size size 0 s

/-- The part of `Slip::loop` for a receiver that is receiving. -/
def receiving (s : Slip) (recv : Byte) : Traced SlipAccess (Option Delivery × Slip) :=
  if slipMaxSize - 1 ≤ s.bufIndex then pure (none, { s with state := .idle })
  else if recv = slipCode.stop then
    if s.bufIndex = 0 then pure (none, s)
    else do
      let s ← s.parseEscapes
      pure (some ⟨s.buffer, BitVec.ofNat 8 (s.bufIndex - 1)⟩, { s with state := .idle })
  else do
    Traced.touch (.buffer s.bufIndex)
    pure (none, s.push recv)

/-- `Slip::loop` on an available byte, with the `onReceive` call it makes. -/
def loop (s : Slip) (recv : Byte) : Traced SlipAccess (Option Delivery × Slip) :=
  match s.state with
  | .idle =>
    if recv = slipCode.stop then { s with bufIndex := 0, state := .receiving }.receiving recv
    else pure (none, s)
  | .receiving => s.receiving recv
  | .error => pure (none, s)

/-- `Slip::send`: the offsets read and the bytes written to the serial port. -/
def send (data : Memory Byte) (size : Byte) : Traced ℤ (List Byte) := do
  Traced.touchBlock (fun i => (i : ℤ)) size.toNat
  pure (slipCode.stop :: ((data.load 0 size.toNat).flatMap slipCode.escape ++ [slipCode.stop]))

theorem value_send (data : Memory Byte) (size : Byte) :
    (send data size).value = slipCode.frame (data.load 0 size.toNat) := rfl

/-! ### Decoding in place -/

@[simp] theorem push_bufCopy (s : Slip) (b : Byte) : (s.push b).bufCopy = s.bufCopy := rfl
def pushAll (s : Slip) (bs : List Byte) : Slip :=
  { s with buffer := s.buffer.store s.bufIndex bs, bufIndex := s.bufIndex + bs.length }

theorem pushAll_cons (s : Slip) (b : Byte) (bs : List Byte) :
    s.pushAll (b :: bs) = (s.push b).pushAll bs := by
  simp only [pushAll, push, Memory.store, List.length_cons]
  congr 1
  omega

theorem load_drop_two (m : Memory Byte) (i n : ℕ) :
    m.load i (n + 2) = m i :: m (i + 1) :: m.load (i + 2 : ℕ) n := by
  rw [Memory.load_succ, Memory.load_succ]
  congr 3

/-- The loop writes the decoded copy; the byte after the copy stands in for the one a
dangling escape lacks. -/
theorem value_parseLoop (size left i : ℕ) (s : Slip) (hleft : size ≤ i + left) :
    (parseLoop size left i s).value =
      s.pushAll (slipCode.decode (s.bufCopy size) (s.bufCopy.load i (size - i))) := by
  induction left generalizing i s with
  | zero =>
    have hnone : size - i = 0 := by omega
    rw [hnone]
    rfl
  | succ left ih =>
    by_cases hi : i < size
    · by_cases hesc : s.bufCopy i = slipCode.esc
      · simp only [parseLoop, if_pos hi, if_pos hesc, Traced.value_bind]
        rw [ih _ _ (by omega), push_bufCopy]
        by_cases hlast : i + 1 < size
        · have hrest : size - i = size - (i + 2) + 2 := by omega
          rw [hrest, load_drop_two, hesc, Stuffing.decode_esc, pushAll_cons]
        · -- the escape is the last byte of the copy
          have hone : size - i = 1 := by omega
          have hnone : size - (i + 2) = 0 := by omega
          have hnext : i + 1 = size := by omega
          rw [hone, hnone, ← hnext]
          simp [Memory.load, Stuffing.decode, hesc, pushAll_cons]
      · simp only [parseLoop, if_pos hi, if_neg hesc, Traced.value_bind]
        have hrest : size - i = size - (i + 1) + 1 := by omega
        rw [ih _ _ (by omega), push_bufCopy, hrest, Memory.load_succ,
          Stuffing.decode_plain _ _ hesc, pushAll_cons]
        push_cast
        rfl
    · have hnone : size - i = 0 := by omega
      simp only [parseLoop, if_neg hi, hnone]
      rfl

/-- In place, `parseEscapes` decodes the frame and the stale byte after it. -/
theorem value_parseEscapes (s : Slip) :
    let fill := (s.bufCopy.store 0 (s.buffer.load 0 (s.bufIndex + 1))) (s.bufIndex + 1)
    let decoded := slipCode.decode fill (s.buffer.load 0 (s.bufIndex + 1))
    s.parseEscapes.value.buffer = s.buffer.store 0 decoded ∧
      s.parseEscapes.value.bufIndex = decoded.length ∧
      s.parseEscapes.value.state = s.state := by
  intro fill decoded
  have hload : (s.bufCopy.store 0 (s.buffer.load 0 (s.bufIndex + 1))).load 0 (s.bufIndex + 1) =
      s.buffer.load 0 (s.bufIndex + 1) := by
    have h := Memory.load_store s.bufCopy 0 (s.buffer.load 0 (s.bufIndex + 1))
    rwa [Memory.length_load] at h
  simp only [parseEscapes, Traced.value_bind]
  rw [value_parseLoop _ _ _ _ (by omega)]
  simp only [pushAll, Nat.cast_zero, Nat.sub_zero, hload]
  push_cast
  exact ⟨rfl, Nat.zero_add _, trivial⟩

/-! ### Receiving a frame -/

def receiveAll (s : Slip) : List Byte → List Delivery × Slip
  | [] => ([], s)
  | b :: bs =>
    let (call, s) := (s.loop b).value
    let (calls, s) := s.receiveAll bs
    (call.toList ++ calls, s)

theorem receiveAll_append (s : Slip) (as bs : List Byte) :
    s.receiveAll (as ++ bs) =
      ((s.receiveAll as).1 ++ ((s.receiveAll as).2.receiveAll bs).1,
        ((s.receiveAll as).2.receiveAll bs).2) := by
  induction as generalizing s with
  | nil => rfl
  | cons a as ih =>
    simp only [List.cons_append, receiveAll, ih, List.append_assoc]

theorem loop_start (s : Slip) (h : s.state = .idle) :
    (s.loop slipCode.stop).value = (none, { s with bufIndex := 0, state := .receiving }) := by
  simp [loop, receiving, h, slipMaxSize]

theorem loop_byte (s : Slip) (h : s.state = .receiving) (b : Byte) (hb : b ≠ slipCode.stop)
    (hroom : s.bufIndex < slipMaxSize - 1) : (s.loop b).value = (none, s.push b) := by
  simp [loop, receiving, h, hb, Nat.not_le.mpr hroom]

theorem receiveAll_body (s : Slip) (h : s.state = .receiving) (bs : List Byte)
    (hbs : slipCode.stop ∉ bs) (hroom : s.bufIndex + bs.length ≤ slipMaxSize - 1) :
    s.receiveAll bs = ([], s.pushAll bs) := by
  induction bs generalizing s with
  | nil => rfl
  | cons b bs ih =>
    rw [List.mem_cons, not_or] at hbs
    rw [List.length_cons] at hroom
    have hstep := s.loop_byte h b (Ne.symm hbs.1) (by omega)
    have hpush : (s.push b).bufIndex = s.bufIndex + 1 := rfl
    simp only [receiveAll, hstep]
    rw [ih (s.push b) h hbs.2 (by omega), pushAll_cons]
    rfl

/-- The closing delimiter of a frame that fits delivers its payload, whatever its escapes. -/
theorem loop_deliver (s : Slip) (h : s.state = .receiving) (raw : List Byte) (hne : raw ≠ [])
    (hindex : s.bufIndex = raw.length) (hload : s.buffer.load 0 s.bufIndex = raw)
    (hfits : raw.length ≤ slipMaxSize - 2) :
    ∃ d, (s.loop slipCode.stop).value.1 = some d ∧
      d.size = BitVec.ofNat 8 (slipCode.payload raw).length ∧
      d.data.load 0 (slipCode.payload raw).length = slipCode.payload raw ∧
      (s.loop slipCode.stop).value.2.state = .idle := by
  have hpos : 0 < raw.length := List.length_pos_iff.mpr hne
  simp only [slipMaxSize] at hfits
  rcases s.value_parseEscapes with ⟨hbuffer, hlast, _⟩
  have hframe : s.buffer.load 0 (s.bufIndex + 1) = raw ++ [s.buffer (s.bufIndex : ℤ)] := by
    rw [Memory.load_add, hload]
    simp [Memory.load]
  rw [hframe] at hbuffer hlast
  rcases slipCode.decode_append_singleton
    ((s.bufCopy.store 0 (raw ++ [s.buffer s.bufIndex])) (s.bufIndex + 1)) raw
    (s.buffer s.bufIndex) with ⟨y, hdecode⟩
  rw [hdecode] at hbuffer hlast
  rw [List.length_append, List.length_singleton] at hlast
  have hloop : (s.loop slipCode.stop).value =
      (some ⟨s.parseEscapes.value.buffer, BitVec.ofNat 8 (s.parseEscapes.value.bufIndex - 1)⟩,
        { s.parseEscapes.value with state := .idle }) := by
    have hroom : ¬ slipMaxSize - 1 ≤ s.bufIndex := by
      simp only [slipMaxSize]
      omega
    have hindex' : s.bufIndex ≠ 0 := by omega
    simp [loop, receiving, h, hroom, hindex']
  refine ⟨_, by rw [hloop], ?_, ?_, by rw [hloop]⟩
  · rw [hlast, Nat.add_sub_cancel]
  · rw [hbuffer, Memory.store_append, Memory.load_store_before _ _ (by omega), Memory.load_store]

theorem loop_close (s : Slip) (h : s.state = .receiving) (m : List Byte) (hm : m ≠ [])
    (hindex : s.bufIndex = (slipCode.encode m).length)
    (hload : s.buffer.load 0 s.bufIndex = slipCode.encode m)
    (hfits : (slipCode.encode m).length ≤ slipMaxSize - 2) :
    ∃ d, (s.loop slipCode.stop).value.1 = some d ∧ d.size = BitVec.ofNat 8 m.length ∧
      d.data.load 0 m.length = m ∧ (s.loop slipCode.stop).value.2.state = .idle := by
  have hne : slipCode.encode m ≠ [] := by
    have hle := slipCode.length_le_encode m
    have hpos := List.length_pos_iff.mpr hm
    exact List.length_pos_iff.mp (by omega)
  have := s.loop_deliver h (slipCode.encode m) hne hindex hload hfits
  rwa [slipCode.payload_encode] at this

/-- The next delimiter opens a frame, or repeats the one that did. -/
def Aligned (s : Slip) : Prop := s.state = .idle ∨ (s.state = .receiving ∧ s.bufIndex = 0)

theorem loop_open (s : Slip) (h : s.Aligned) :
    (s.loop slipCode.stop).value = (none, { s with bufIndex := 0, state := .receiving }) := by
  rcases h with h | ⟨hstate, hindex⟩
  · exact s.loop_start h
  · have hopen : { s with bufIndex := 0, state := .receiving } = s := by rw [← hstate, ← hindex]
    rw [hopen]
    simp [loop, receiving, hstate, hindex, slipMaxSize]

/-- An aligned receiver delivers the payload of a frame exactly once and is idle again. -/
theorem receiveAll_frame_aligned (s : Slip) (h : s.Aligned) (m : List Byte) (hm : m ≠ [])
    (hfits : (slipCode.encode m).length ≤ slipMaxSize - 2) :
    ∃ d, (s.receiveAll (slipCode.frame m)).1 = [d] ∧ d.size = BitVec.ofNat 8 m.length ∧
      d.data.load 0 m.length = m ∧ (s.receiveAll (slipCode.frame m)).2.state = .idle := by
  let opened : Slip := { s with bufIndex := 0, state := .receiving }
  let filled : Slip := opened.pushAll (slipCode.encode m)
  have hbody : opened.receiveAll (slipCode.encode m) = ([], filled) :=
    opened.receiveAll_body rfl _ (slipCode.stop_notMem_encode m) (by
      simp only [opened, slipMaxSize] at hfits ⊢
      omega)
  have hindex : filled.bufIndex = (slipCode.encode m).length := Nat.zero_add _
  have hload : filled.buffer.load 0 filled.bufIndex = slipCode.encode m := by
    rw [hindex]
    exact Memory.load_store s.buffer 0 (slipCode.encode m)
  rcases filled.loop_close rfl m hm hindex hload hfits with ⟨d, hcall, hsize, hdata, hidle⟩
  have hall : s.receiveAll (slipCode.frame m) =
      ([d], (filled.loop slipCode.stop).value.2) := by
    rw [Stuffing.frame, receiveAll, s.loop_open h]
    change (([] : List Delivery) ++ (opened.receiveAll _).1, (opened.receiveAll _).2) = _
    rw [receiveAll_append, hbody]
    simp only [receiveAll, hcall]
    rfl
  rw [hall]
  exact ⟨d, rfl, hsize, hdata, hidle⟩

theorem receiveAll_frame (s : Slip) (h : s.state = .idle) (m : List Byte) (hm : m ≠ [])
    (hfits : (slipCode.encode m).length ≤ slipMaxSize - 2) :
    ∃ d, (s.receiveAll (slipCode.frame m)).1 = [d] ∧ d.size = BitVec.ofNat 8 m.length ∧
      d.data.load 0 m.length = m ∧ (s.receiveAll (slipCode.frame m)).2.state = .idle :=
  s.receiveAll_frame_aligned (Or.inl h) m hm hfits

end Slip

end Aquila.Bridge
