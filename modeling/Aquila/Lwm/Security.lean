import Aquila.Library.Feedback
import Aquila.Lwm.Frame

/-! # Secured frames

`nwkSecurity.c` encrypts a payload by cipher feedback, from a vector made of the header, and
appends the sum of the four words of the last register. The block cipher is the hardware's;
it is only ever run forwards.
-/

namespace Aquila.Lwm
open Library Bridge

def nwkSecurityMicSize : ℕ := 4

/-- The `NWK_SECURITY_BLOCK_SIZE` bytes of the words of `nwkSecurityVector`, low bytes first. -/
abbrev SecurityBlock := Feedback.Block 8 16

/-- `PHY_EncryptReq`: a block under a key. -/
abbrev Cipher := SecurityBlock → SecurityBlock → SecurityBlock

/-- The vector that `nwkSecurityStart` makes of a header. -/
def securityVector (h : NwkFrameHeader) : SecurityBlock := fun i =>
  [h.nwkSeq, 0, 0, 0,
    h.nwkDstEndpoint.setWidth 8, 0, lowByte h.nwkDstAddr, highByte h.nwkDstAddr,
    h.nwkSrcEndpoint.setWidth 8, 0, lowByte h.nwkSrcAddr, highByte h.nwkSrcAddr,
    h.nwkFcf, 0, lowByte h.macDstPanId, highByte h.macDstPanId].getD i 0

def vmic (v : SecurityBlock) (j : Fin 4) : Byte :=
  v ⟨j, by omega⟩ ^^^ v ⟨4 + j, by omega⟩ ^^^ v ⟨8 + j, by omega⟩ ^^^ v ⟨12 + j, by omega⟩

/-- What `nwkSecurity.c` keeps of the frame it works on. `mic` holds the bytes after the payload
of a frame that is decrypted. -/
structure Security where
  size : ℕ
  offset : ℕ
  encrypt : Bool
  vector : SecurityBlock
  mic : List Byte

namespace Security

/-- `nwkSecurityStart`, on the active frame. `nwkSecuritySize` has eight bits and wraps around for
a payload that is shorter than its check. -/
def start (f : NwkFrame) : Security × NwkFrame :=
  let encrypt := f.state == .securityEncryptPending
  let size :=
    if encrypt then f.payload.length
    else if f.payload.length < nwkSecurityMicSize then f.payload.length + 256 - nwkSecurityMicSize
    else f.payload.length - nwkSecurityMicSize
  ({ size := size, offset := 0, encrypt := encrypt, vector := securityVector f.header,
     mic := f.payload.drop size },
    { f with state := .securityProcess, payload := f.payload.take size })

/-- `SYS_EncryptReq` and the `SYS_EncryptConf` it ends with: one block of the active frame. -/
def encryptReq (aes : SecurityBlock → SecurityBlock) (s : Security) (f : NwkFrame) :
    Security × NwkFrame :=
  let k := aes s.vector
  let block := min s.size 16
  let text := (f.payload.drop s.offset).take block
  let size := s.size - block
  ({ s with
      size := size
      offset := s.offset + block
      vector := Feedback.feed s.encrypt k text },
    { f with
      state := if 0 < size then .securityProcess else .securityConfirm
      payload := f.payload.take s.offset ++ Feedback.mix k text ++
        f.payload.drop (s.offset + block) })

/-- `nwkSecurityProcessMic` -/
def processMic (s : Security) (f : NwkFrame) : Bool × NwkFrame :=
  if s.encrypt then (true, { f with payload := f.payload ++ List.ofFn (vmic s.vector) })
  else (s.mic == List.ofFn (vmic s.vector), f)

def rest (aes : SecurityBlock → SecurityBlock) (s : Security) (f : NwkFrame) :
    Security × NwkFrame :=
  (fun x => encryptReq aes x.1 x.2)^[(s.size - 1) / 16 + 1] (s, f)

def result (aes : SecurityBlock → SecurityBlock) (f : NwkFrame) : Security × NwkFrame :=
  rest aes (start f).1 (start f).2

def work (aes : SecurityBlock → SecurityBlock) (f : NwkFrame) : Bool × NwkFrame :=
  processMic (result aes f).1 (result aes f).2

theorem rest_long (aes : SecurityBlock → SecurityBlock) {s : Security} (f : NwkFrame)
    (h : 16 < s.size) :
    rest aes s f = rest aes (encryptReq aes s f).1 (encryptReq aes s f).2 := by
  have hcount : (s.size - 1) / 16 + 1 = ((encryptReq aes s f).1.size - 1) / 16 + 1 + 1 := by
    simp only [encryptReq]
    omega
  rw [rest, hcount, Function.iterate_succ_apply]
  rfl

theorem rest_short (aes : SecurityBlock → SecurityBlock) {s : Security} (f : NwkFrame)
    (h : s.size ≤ 16) : rest aes s f = encryptReq aes s f := by
  have hcount : (s.size - 1) / 16 + 1 = 1 := by omega
  rw [rest, hcount]
  rfl

/-- What the frame and the vector are once all blocks are done: nothing but the text between
the offset and the end of the payload has changed. -/
theorem iterate_encryptReq (aes : SecurityBlock → SecurityBlock) (count : ℕ) (s : Security)
    (f : NwkFrame) (done rest : List Byte) (hpayload : f.payload = done ++ rest)
    (hoffset : s.offset = done.length) (hsize : s.size = rest.length)
    (hcount : (rest.length - 1) / 16 = count) :
    (fun x : Security × NwkFrame => encryptReq aes x.1 x.2)^[count + 1] (s, f) =
      let result := Feedback.blocks aes s.encrypt count s.vector rest
      ({ s with size := 0, offset := done.length + rest.length, vector := result.2 },
        { f with state := .securityConfirm, payload := done ++ result.1 }) := by
  induction count generalizing s f done rest with
  | zero =>
    have hle : rest.length ≤ 16 := by omega
    simp [encryptReq, hpayload, hoffset, hsize, hle, Feedback.blocks]
  | succ count ih =>
    have hlong : 16 < rest.length := by omega
    have htake : (rest.take 16).length = 16 := by
      rw [List.length_take]
      omega
    rw [Function.iterate_succ_apply]
    have hstep : encryptReq aes s f =
        ({ s with
            size := (rest.drop 16).length
            offset := (done ++ Feedback.mix (aes s.vector) (rest.take 16)).length
            vector := Feedback.feed s.encrypt (aes s.vector) (rest.take 16) },
          { f with
            state := .securityProcess
            payload := done ++ Feedback.mix (aes s.vector) (rest.take 16) ++ rest.drop 16 }) := by
      have hmin : min rest.length 16 = 16 := by omega
      have hmore : 0 < rest.length - 16 := by omega
      have htail : (done ++ rest).drop (done.length + 16) = rest.drop 16 := by
        rw [← List.drop_drop, List.drop_left]
      simp only [encryptReq, hpayload, hoffset, hsize, hmin, hmore, htail, List.drop_left,
        List.take_left, List.length_append, List.length_drop, Feedback.length_mix, htake, if_true,
        Nat.min_self]
    rw [hstep, ih _ _ _ _ rfl rfl rfl (by rw [List.length_drop]; omega)]
    simp only [Feedback.blocks, Prod.mk.injEq, mk.injEq, true_and, and_true,
      List.length_append, Feedback.length_mix, htake, List.length_drop, List.append_assoc]
    omega

theorem result_encrypt (aes : SecurityBlock → SecurityBlock) {f : NwkFrame}
    (h : f.state = .securityEncryptPending) :
    result aes f =
      let text := Feedback.stream aes true (securityVector f.header) f.payload
      ({ size := 0, offset := f.payload.length, encrypt := true, vector := text.2, mic := [] },
        { f with state := .securityConfirm, payload := text.1 }) := by
  have hstart : start f =
      ({ size := f.payload.length, offset := 0, encrypt := true,
         vector := securityVector f.header, mic := [] },
        { f with state := .securityProcess }) := by
    simp [start, h]
  rw [result, hstart, rest]
  simp only
  rw [iterate_encryptReq aes _ _ { f with state := .securityProcess } [] f.payload rfl rfl rfl rfl]
  simp [Feedback.stream]

theorem result_decrypt (aes : SecurityBlock → SecurityBlock) {f : NwkFrame} {text mic : List Byte}
    (h : f.state = .securityDecryptPending) (hpayload : f.payload = text ++ mic)
    (hmic : mic.length = nwkSecurityMicSize) :
    result aes f =
      let plain := Feedback.stream aes false (securityVector f.header) text
      ({ size := 0, offset := text.length, encrypt := false, vector := plain.2, mic := mic },
        { f with state := .securityConfirm, payload := plain.1 }) := by
  have hsize : (text ++ mic).length - nwkSecurityMicSize = text.length := by
    rw [List.length_append, hmic, Nat.add_sub_cancel]
  have hroom : ¬ (text ++ mic).length < nwkSecurityMicSize := by
    rw [List.length_append, hmic]
    omega
  have hstart : start f =
      ({ size := text.length, offset := 0, encrypt := false,
         vector := securityVector f.header, mic := mic },
        { f with state := .securityProcess, payload := text }) := by
    have hdirection : (FrameState.securityDecryptPending == .securityEncryptPending) = false := rfl
    simp only [start, h, hdirection, hpayload, hroom, hsize, Bool.false_eq_true, if_false,
      List.drop_left, List.take_left]
  rw [result, hstart, rest]
  simp only
  rw [iterate_encryptReq aes _ _ { f with state := .securityProcess, payload := text } [] text rfl
    rfl rfl rfl]
  simp [Feedback.stream]

/-- A frame to encrypt gets the stream of its payload, and the check of the last register. -/
theorem work_encrypt (aes : SecurityBlock → SecurityBlock) {f : NwkFrame}
    (h : f.state = .securityEncryptPending) :
    work aes f =
      let result := Feedback.stream aes true (securityVector f.header) f.payload
      (true, { f with
        state := .securityConfirm, payload := result.1 ++ List.ofFn (vmic result.2) }) := by
  rw [work, result_encrypt aes h]
  rfl

/-- A frame to decrypt loses its last four bytes, which are compared with the check of the
last register. -/
theorem work_decrypt (aes : SecurityBlock → SecurityBlock) {f : NwkFrame} {text mic : List Byte}
    (h : f.state = .securityDecryptPending) (hpayload : f.payload = text ++ mic)
    (hmic : mic.length = nwkSecurityMicSize) :
    work aes f =
      let result := Feedback.stream aes false (securityVector f.header) text
      (mic == List.ofFn (vmic result.2), { f with
        state := .securityConfirm, payload := result.1 }) := by
  rw [work, result_decrypt aes h hpayload hmic]
  rfl

end Security

/-- What a frame has on the air after its encryption still fits into a buffer, reaches a receiver
with the same key and the same header fields as the payload that was encrypted, and passes the
check. -/
theorem secured_round_trip (aes : SecurityBlock → SecurityBlock) (f g : NwkFrame)
    (hf : f.state = .securityEncryptPending) (hg : g.state = .securityDecryptPending)
    (hsize : headerSize + f.payload.length + nwkSecurityMicSize ≤ nwkFrameMaxPayloadSize)
    (hvector : securityVector g.header = securityVector f.header)
    (hpayload : g.payload = (Security.work aes f).2.payload) :
    headerSize + g.payload.length ≤ nwkFrameMaxPayloadSize ∧
      Security.work aes g =
        (true, { g with state := .securityConfirm, payload := f.payload }) := by
  rw [Security.work_encrypt aes hf] at hpayload
  have hmic := List.length_ofFn (f := vmic
    (Feedback.stream aes true (securityVector f.header) f.payload).2)
  constructor
  · rw [hpayload, List.length_append, hmic, Feedback.length_stream aes (by decide), ← Nat.add_assoc]
    exact hsize
  · rw [Security.work_decrypt aes hg hpayload hmic]
    simp only
    rw [hvector, Feedback.stream_stream aes (by decide)]
    simp

def exampleFrame (state : FrameState) (payload : List Byte) : NwkFrame :=
  { NwkFrame.cleared with state := state, payload := payload }

def exampleText : List Byte := List.replicate 12 1 ++ List.replicate 9 2

/-- The payload on the air, under a cipher that reverses a block and adds to its bytes. -/
def exampleCiphertext : List Byte :=
  (Security.work (fun block i => block (Fin.rev i) + 3)
    (exampleFrame .securityEncryptPending exampleText)).2.payload

theorem exampleFrame_round_trip :
    headerSize + exampleCiphertext.length ≤ nwkFrameMaxPayloadSize ∧
      Security.work (fun block i => block (Fin.rev i) + 3)
          (exampleFrame .securityDecryptPending exampleCiphertext) =
        (true, { exampleFrame .securityDecryptPending exampleCiphertext with
          state := .securityConfirm, payload := exampleText }) :=
  secured_round_trip (fun block i => block (Fin.rev i) + 3)
    (exampleFrame .securityEncryptPending exampleText)
    (exampleFrame .securityDecryptPending exampleCiphertext) rfl rfl (by decide) rfl rfl

theorem vmic_xor (u v : SecurityBlock) (j : Fin 4) :
    vmic (fun i => u i ^^^ v i) j = vmic u j ^^^ vmic v j := by
  simp only [vmic]
  ac_rfl

/-- A change within the last block of a ciphertext passes the check exactly when the changes
cancel out in each of the four columns, and it changes the payload by as much. -/
theorem tampered_last_block (aes : SecurityBlock → SecurityBlock) (f g : NwkFrame)
    (text last last' mic : List Byte) (hf : f.state = .securityDecryptPending)
    (hg : g.state = .securityDecryptPending) (hheader : g.header = f.header)
    (hfpayload : f.payload = text ++ last ++ mic) (hgpayload : g.payload = text ++ last' ++ mic)
    (htext : 16 ∣ text.length) (hlast : 0 < last.length) (hlast16 : last.length ≤ 16)
    (hlength : last'.length = last.length) (hmic : mic.length = nwkSecurityMicSize)
    (hpass : (Security.work aes f).1 = true) :
    ((Security.work aes g).1 = true ↔ ∀ j, vmic (Feedback.difference last last') j = 0#8) ∧
      ∀ i : Fin 16, i < last.length →
        (Security.work aes g).2.payload.getD (text.length + i) 0 =
          (Security.work aes f).2.payload.getD (text.length + i) 0 ^^^
            Feedback.difference last last' i := by
  rcases Feedback.stream_append aes (by decide) false (securityVector f.header) htext with
    ⟨k, out, hout⟩
  have hflast := hout last hlast hlast16
  have hglast := hout last' (by omega) (by omega)
  rw [Security.work_decrypt aes hf hfpayload hmic] at hpass ⊢
  rw [Security.work_decrypt aes hg hgpayload hmic, hheader]
  simp only [hflast, hglast, beq_iff_eq] at hpass ⊢
  constructor
  · have hvmic (j : Fin 4) : vmic (Feedback.feed false k last') j =
        vmic (Feedback.feed false k last) j ^^^ vmic (Feedback.difference last last') j := by
      rw [← vmic_xor]
      congr 1
      ext1 i
      exact Feedback.feed_difference k hlength i
    rw [hpass, List.ofFn_inj, funext_iff]
    apply forall_congr'
    intro j
    rw [hvmic j, ← BitVec.xor_eq_zero_iff, ← BitVec.xor_assoc, BitVec.xor_self, BitVec.zero_xor]
  · have hplain := Feedback.length_stream aes (by decide) false (securityVector f.header)
      (text ++ last)
    rw [hflast, List.length_append, List.length_append, Feedback.length_mix] at hplain
    intro i hi
    rw [List.getD_append_right _ _ _ _ (by omega), List.getD_append_right _ _ _ _ (by omega)]
    have hindex : text.length + i - out.length = i := by omega
    rw [hindex, Feedback.mix_difference k hlength i hi]

theorem exampleFrame_tampered :
    ((Security.work id (exampleFrame .securityDecryptPending [1, 3, 1, 2, 0, 0])).1 = true ↔
        ∀ j, vmic (Feedback.difference [1, 2] [1, 3]) j = 0#8) ∧
      ∀ i : Fin 16, i < [1#8, 2#8].length →
        (Security.work id (exampleFrame .securityDecryptPending
            [1, 3, 1, 2, 0, 0])).2.payload.getD (0 + i) 0 =
          (Security.work id (exampleFrame .securityDecryptPending
            [1, 2, 1, 2, 0, 0])).2.payload.getD (0 + i) 0 ^^^
            Feedback.difference [1, 2] [1, 3] i :=
  tampered_last_block id (exampleFrame .securityDecryptPending [1, 2, 1, 2, 0, 0])
    (exampleFrame .securityDecryptPending [1, 3, 1, 2, 0, 0]) [] [1, 2] [1, 3] [1, 2, 0, 0] rfl rfl
    rfl rfl rfl (by decide) (by decide) (by decide) rfl rfl (by decide)

end Aquila.Lwm
