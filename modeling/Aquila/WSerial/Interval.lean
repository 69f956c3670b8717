import Aquila.Library.Counter
import Aquila.WSerial.Transmit

/-! # The send interval of the wireless serial port

`loop` compares `millis()` with a deadline that wraps, which is right only while both have
wrapped or neither has. A deadline at the last reading of the counter is never passed.
-/

namespace Aquila.WSerial
open Library Mesh

namespace Sender

def Due (s : Sender) (now : BitVec 32) : Prop := s.lastTimeSent + sendInterval < now

/-- `loop` sends and notes the time exactly when more than the interval has passed. -/
def Punctual (s : Sender) (now : BitVec 32) : Prop :=
  ∀ later sent, s.loop now later sent =
    if sendInterval.toNat < elapsed s.lastTimeSent now then
      { s.sendPacketNow sent with lastTimeSent := later }
    else s

/-- Whatever is called from here on, `loop` never sends again. -/
def Stalled (s : Sender) : Prop := ∀ ls now, ¬ (run step s ls).Due now

theorem loop_due (s : Sender) {now : BitVec 32} (h : s.Due now) (later : BitVec 32) (sent : Bool) :
    s.loop now later sent = { s.sendPacketNow sent with lastTimeSent := later } := by
  rw [loop]
  exact if_pos h

theorem loop_not_due (s : Sender) {now : BitVec 32} (h : ¬ s.Due now) (later : BitVec 32)
    (sent : Bool) : s.loop now later sent = s := by
  rw [loop]
  exact if_neg h

/-- A loop that sends can be told from one that does not by the time it notes. -/
theorem noted_ne (s : Sender) : ∃ later, ∀ sent,
    { s.sendPacketNow sent with lastTimeSent := later } ≠ s := by
  have hnext : s.lastTimeSent + 1#32 ≠ s.lastTimeSent := by
    intro h
    exact absurd (BitVec.add_right_eq_self.mp h) (by decide)
  exact ⟨s.lastTimeSent + 1#32, fun sent h => hnext (congrArg lastTimeSent h)⟩

theorem punctual_iff_due (s : Sender) (now : BitVec 32) :
    s.Punctual now ↔ (s.Due now ↔ sendInterval.toNat < elapsed s.lastTimeSent now) := by
  rcases s.noted_ne with ⟨later, hnoted⟩
  constructor
  · intro h
    have hloop := h later true
    constructor
    · intro hdue
      rw [loop_due s hdue] at hloop
      by_contra hearly
      rw [if_neg hearly] at hloop
      exact hnoted true hloop
    · intro hlate
      rw [if_pos hlate] at hloop
      by_contra hdue
      rw [loop_not_due s hdue] at hloop
      exact hnoted true hloop.symm
  · intro h later sent
    by_cases hdue : s.Due now
    · rw [loop_due s hdue, if_pos (h.mp hdue)]
    · rw [loop_not_due s hdue, if_neg (fun hlate => hdue (h.mpr hlate))]

theorem deadline_wraps_iff (t : BitVec 32) :
    2 ^ 32 ≤ t.toNat + sendInterval.toNat ↔ t = 0xFFFFFFFF#32 := by
  have hinterval : sendInterval.toNat = 1 := rfl
  have hlast : (0xFFFFFFFF#32).toNat = 2 ^ 32 - 1 := rfl
  have ht := t.isLt
  rw [BitVec.toNat_eq, hinterval, hlast]
  omega

theorem lastTimeSent_step (s : Sender) (h : ∀ now, ¬ s.Due now) (l : SendStep) :
    (s.step l).lastTimeSent = s.lastTimeSent := by
  have hsend (sent : Bool) : (s.sendPacketNow sent).lastTimeSent = s.lastTimeSent := by
    by_cases hands : s.Hands
    · rw [sendPacketNow_hands s sent hands]
    · rw [sendPacketNow_idle s sent hands]
  cases l with
  | write c sent =>
    cases hfull : s.txBuffer.isFull with
    | false => rw [step, write_room s c sent hfull, store]
    | true =>
      rw [step, write_full s c sent hfull]
      exact hsend sent
  | flush sent => exact hsend sent
  | loop now later sent => rw [step, loop_not_due s (h now)]
  | appDataCb => rfl

theorem stalled_of_never_due {s : Sender} (h : ∀ now, ¬ s.Due now) : s.Stalled := by
  intro ls now
  have htime : (run step s ls).lastTimeSent = s.lastTimeSent := by
    -- the time is the whole invariant: no loop is due while it stays the same
    apply run_invariant (I := fun t : Sender => t.lastTimeSent = s.lastTimeSent) _ rfl ls
    intro t l ht
    have hdue (now : BitVec 32) : ¬ t.Due now := by
      rw [Due, ht]
      exact h now
    rw [t.lastTimeSent_step hdue l, ht]
  rw [Due, htime]
  exact h now

/-- The loop is punctual unless just one of the counter and the deadline has wrapped, and it
stops for good at the one time whose deadline is the end of the period. -/
theorem punctual_iff (s : Sender) (now : BitVec 32) :
    (s.Punctual now ↔ (s.lastTimeSent = 0xFFFFFFFF#32 ↔ now < s.lastTimeSent)) ∧
      (s.Stalled ↔ s.lastTimeSent = 0xFFFFFFFE#32) := by
  constructor
  · rw [punctual_iff_due, Due, deadline_iff, deadline_wraps_iff]
  · have hend : s.lastTimeSent = 0xFFFFFFFE#32 ↔
        s.lastTimeSent + sendInterval = BitVec.allOnes 32 := by
      rw [← BitVec.eq_sub_iff_add_eq]
      rfl
    rw [hend, ← never_due_iff]
    exact ⟨fun h => h [], stalled_of_never_due⟩

/-- A time noted two readings before the wrap is the last one. -/
theorem not_punctual :
    ¬ ∀ (s : Sender) (now : BitVec 32), elapsed s.lastTimeSent now < 2 ^ 31 →
      s.Punctual now ∧ ¬ s.Stalled := by
  intro hall
  let s := run step (init 0x0001#16 (fun _ => 0)) [.loop 0xFFFFFFFD 0xFFFFFFFE false]
  have htime : s.lastTimeSent = 0xFFFFFFFE#32 := by decide +kernel
  have hdue (now : BitVec 32) : ¬ s.Due now := by
    have hnow := now.isLt
    have hend : (0xFFFFFFFE#32 + sendInterval).toNat = 2 ^ 32 - 1 := by decide
    rw [Due, htime, BitVec.lt_def, hend]
    omega
  have hhalf : elapsed s.lastTimeSent 5 < 2 ^ 31 := by
    rw [htime]
    decide +kernel
  exact (hall s 5 hhalf).2 (stalled_of_never_due hdue)

end Sender

end Aquila.WSerial
