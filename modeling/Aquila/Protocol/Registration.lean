import Aquila.Library.Run
import Aquila.Library.SlotTable
import Aquila.Protocol.Node

/-! # Registering actions and events

Both registries are tables of a hundred pointers with a counter of those in use. A new
entry goes to the slot whose number is the counter, which is free only as long as no
entry was put above a gap. The bytes of a description are copied to memory of its own;
its length fits a `uint8_t`.
-/

namespace Aquila.Protocol
open Library SlotTable ProtocolDB

variable {α σ : Type}

/-- A table of slots with the counter of those in use. -/
structure Registry (α : Type) where
  used : Byte
  slots : ℕ → Option α

namespace Registry

/-- The common body of `setAction` and `setEvent`. -/
def set (r : Registry α) (size : ℕ) (n : Byte) (a : α) : Registry α :=
  if n.toNat < size then
    { used := if (r.slots n.toNat).isNone then r.used + 1 else r.used
      slots := Function.update r.slots n.toNat (some a) }
  else r

/-- The common body of `addAction` and `addEvent`. -/
def add (r : Registry α) (size : ℕ) (a : α) : Registry α := r.set size r.used a

def active (r : Registry α) (i : ℕ) : Bool := (r.slots i).isSome

def Counted (r : Registry α) (size : ℕ) : Prop := r.used.toNat = rank r.active size

/-- The entry goes to an empty slot and the others are kept, or nothing changes as all are used. -/
def Adds (r r' : Registry α) (size : ℕ) (a : α) : Prop :=
  (∃ k < size, r.slots k = none ∧ r'.slots = Function.update r.slots k (some a)) ∨
    ((∀ k < size, r.slots k ≠ none) ∧ r' = r)

theorem slots_set (r : Registry α) {size : ℕ} {n : Byte} (a : α) (h : n.toNat < size) :
    (r.set size n a).slots = Function.update r.slots n.toNat (some a) := by
  rw [set, if_pos h]

theorem active_set (r : Registry α) {size : ℕ} {n : Byte} (a : α) (h : n.toNat < size) :
    (r.set size n a).active = Function.update r.active n.toNat true := by
  funext i
  rw [active, slots_set r a h, Function.update_apply, Function.update_apply]
  split <;> rfl

theorem Counted.set {r : Registry α} {size : ℕ} (h : r.Counted size) (hsize : size < 2 ^ 8)
    (n : Byte) (a : α) : (r.set size n a).Counted size := by
  by_cases hn : n.toNat < size
  · have hle := rank_le (Function.update r.active n.toNat true) size
    rw [Counted, active_set r a hn]
    cases hslot : r.slots n.toNat with
    | none =>
      have hfree : r.active n.toNat = false := by rw [active, hslot]; rfl
      have hone : (1 : Byte).toNat = 1 := rfl
      rw [rank_activate hn hfree] at hle ⊢
      rw [Registry.set, if_pos hn, hslot]
      change (r.used + 1).toNat = _
      rw [BitVec.toNat_add, h, hone, Nat.mod_eq_of_lt (by omega)]
    | some b =>
      have hactive : r.active n.toNat = true := by rw [active, hslot]; rfl
      have hsame : Function.update r.active n.toNat true = r.active := by
        rw [← hactive, Function.update_eq_self]
      rw [hsame, Registry.set, if_pos hn, hslot]
      exact h
  · rw [Registry.set, if_neg hn]
    exact h

/-- The slot that the counter names is free, if there is one left. -/
def NextFree (r : Registry α) (size : ℕ) : Prop :=
  r.used.toNat < size → r.slots r.used.toNat = none

theorem adds_iff {r : Registry α} {size : ℕ} (h : r.Counted size) (a : α) :
    r.Adds (r.add size a) size a ↔ r.NextFree size := by
  have hall : (∀ k < size, r.slots k ≠ none) ↔ rank r.active size = size := by
    rw [rank_eq_self_iff]
    simp only [active, Option.isSome_iff_ne_none]
  constructor
  · rintro (⟨k, hk, hnone, hslots⟩ | ⟨hfull, _⟩) hused
    · -- the written slot is the one the counter names
      rw [add, slots_set r a hused] at hslots
      have hsame : k = r.used.toNat := by
        by_contra hne
        have := congrFun hslots k
        rw [Function.update_self, Function.update_of_ne hne, hnone] at this
        cases this
      exact hsame ▸ hnone
    · rw [h, hall.mp hfull] at hused
      exact absurd hused (lt_irrefl _)
  · intro hfree
    by_cases hused : r.used.toNat < size
    · left
      exact ⟨r.used.toNat, hused, hfree hused, slots_set r a hused⟩
    · right
      have hle := rank_le r.active size
      rw [← h] at hle
      refine ⟨hall.mpr (h.symm.trans (by omega)), ?_⟩
      rw [add, Registry.set, if_neg hused]

end Registry

namespace Node

def actionRegistry (n : Node σ) : Registry (Action σ) := ⟨n.nActions, n.actions⟩

def eventRegistry (n : Node σ) : Registry CString := ⟨n.nEvents, n.events⟩

/-- `PROTOCOL_DEFAULT_ID` -/
def defaultId : CString := "mx.makerlab.example".toList.map (fun c => BitVec.ofNat 8 c.toNat)

/-- `PROTOCOL_DEFAULT_NAME` -/
def defaultName : CString := "Example".toList.map (fun c => BitVec.ofNat 8 c.toNat)

/-- What `AquilaProtocol::begin` does to the registries and the identity of a node, with the
address read from the id chip. -/
def begin (n : Node σ) (euiAddress : EUIAddress) : Node σ :=
  { n with
    euiAddress := euiAddress
    id := defaultId
    name := defaultName
    nActions := 0
    nEvents := 0
    actions := fun _ => none
    events := fun _ => none
    onSubs := [] }

/-- `AquilaProtocol::setAction` -/
def setAction (n : Node σ) (i : Byte) (action : Action σ) : Node σ :=
  let r := n.actionRegistry.set maxActions i action
  { n with nActions := r.used, actions := r.slots }

/-- `AquilaProtocol::addAction` -/
def addAction (n : Node σ) (action : Action σ) : Node σ := n.setAction n.nActions action

/-- `AquilaProtocol::setEvent` -/
def setEvent (n : Node σ) (i : Byte) (description : CString) : Node σ :=
  let r := n.eventRegistry.set maxEvents i description
  { n with nEvents := r.used, events := r.slots }

/-- `AquilaProtocol::addEvent`, with the handle it returns. -/
def addEvent (n : Node σ) (description : CString) : Byte × Node σ :=
  (n.nEvents, n.setEvent n.nEvents description)

end Node

/-- A call that registers an action or an event. -/
inductive Registration (σ : Type) where
  | setAction (i : Byte) (action : Action σ)
  | addAction (action : Action σ)
  | setEvent (i : Byte) (description : CString)
  | addEvent (description : CString)

namespace Node

def register (n : Node σ) : Registration σ → Node σ
  | .setAction i action => n.setAction i action
  | .addAction action => n.addAction action
  | .setEvent i description => n.setEvent i description
  | .addEvent description => (n.addEvent description).2

structure Counted (n : Node σ) : Prop where
  actions : n.actionRegistry.Counted maxActions
  events : n.eventRegistry.Counted maxEvents

theorem begin_counted (n : Node σ) (euiAddress : EUIAddress) : (n.begin euiAddress).Counted := by
  have hnone : ∀ size, rank (fun _ => false) size = 0 := by
    intro size
    induction size with
    | zero => rfl
    | succ size ih => rw [rank_succ, ih]; rfl
  exact ⟨(hnone maxActions).symm, (hnone maxEvents).symm⟩

theorem Counted.register {n : Node σ} (h : n.Counted) (l : Registration σ) :
    (n.register l).Counted := by
  cases l with
  | setAction i action => exact ⟨h.actions.set (by decide) i action, h.events⟩
  | addAction action => exact ⟨h.actions.set (by decide) n.nActions action, h.events⟩
  | setEvent i description => exact ⟨h.actions, h.events.set (by decide) i description⟩
  | addEvent description => exact ⟨h.actions, h.events.set (by decide) n.nEvents description⟩

/-- What is promised of a call: an addition goes to an empty slot unless all are used, and the
handle of an event is a slot that holds its description. -/
def Registers (n : Node σ) : Registration σ → Prop
  | .addAction action =>
    n.actionRegistry.Adds (n.addAction action).actionRegistry maxActions action
  | .addEvent description =>
    let (event, n') := n.addEvent description
    n.eventRegistry.Adds n'.eventRegistry maxEvents description ∧
      event.toNat < maxEvents ∧ n'.events event.toNat = some description
  | _ => True

/-- The slot that an addition uses is empty; an event finds one. -/
def FindsFree (n : Node σ) : Registration σ → Prop
  | .addAction _ => n.nActions.toNat < maxActions → (n.actions n.nActions.toNat).isNone
  | .addEvent _ => n.nEvents.toNat < maxEvents ∧ (n.events n.nEvents.toNat).isNone
  | _ => True

instance decidableFindsFree (n : Node σ) : ∀ l, Decidable (n.FindsFree l)
  | .addAction _ => inferInstanceAs
    (Decidable (n.nActions.toNat < maxActions → (n.actions n.nActions.toNat).isNone))
  | .addEvent _ => inferInstanceAs
    (Decidable (n.nEvents.toNat < maxEvents ∧ (n.events n.nEvents.toNat).isNone))
  | .setAction _ _ => inferInstanceAs (Decidable True)
  | .setEvent _ _ => inferInstanceAs (Decidable True)

theorem registers_iff {n : Node σ} (h : n.Counted) (l : Registration σ) :
    n.Registers l ↔ n.FindsFree l := by
  cases l with
  | addAction action =>
    rw [FindsFree, Option.isNone_iff_eq_none]
    exact Registry.adds_iff h.actions action
  | addEvent description =>
    have hadds : n.eventRegistry.Adds (n.setEvent n.nEvents description).eventRegistry maxEvents
        description ↔ n.eventRegistry.NextFree maxEvents := Registry.adds_iff h.events description
    rw [FindsFree, Option.isNone_iff_eq_none]
    change (_ ∧ n.nEvents.toNat < maxEvents ∧ (n.setEvent n.nEvents description).events
      n.nEvents.toNat = some description) ↔ _
    rw [hadds]
    constructor
    · rintro ⟨hfree, hlt, _⟩
      exact ⟨hlt, hfree hlt⟩
    · rintro ⟨hlt, hnone⟩
      refine ⟨fun _ => hnone, hlt, ?_⟩
      have hset : (n.setEvent n.nEvents description).events =
          Function.update n.events n.nEvents.toNat (some description) :=
        n.eventRegistry.slots_set description hlt
      rw [hset, Function.update_self]
  | setAction i action => exact Iff.rfl
  | setEvent i description => exact Iff.rfl

theorem guarded_registers_iff {n : Node σ} (h : n.Counted) (ls : List (Registration σ)) :
    Guarded register Registers n ls ↔ Guarded register FindsFree n ls :=
  guarded_iff (I := Counted) (fun _ l h => registers_iff h l) (fun _ l h _ => h.register l) h ls

/-- In a run of registrations from `begin`, all additions register what they should exactly when
each of them finds the slot named by the counter empty. -/
theorem run_registers_iff (n : Node σ) (euiAddress : EUIAddress) (ls : List (Registration σ)) :
    Guarded register Registers (n.begin euiAddress) ls ↔
      Guarded register FindsFree (n.begin euiAddress) ls :=
  guarded_registers_iff (n.begin_counted euiAddress) ls

def plainNode : Node Unit :=
  ⟨protocolVersion, [], [], fun _ => 0, 1, 0, 0, fun _ => none, fun _ => none, []⟩

/-- An event added after one was set at index 1 replaces it. -/
theorem addEvent_replaces :
    let ls : List (Registration Unit) := [.setEvent 1 [0x61#8], .addEvent [0x62#8]]
    let n := run register (plainNode.begin (fun _ => 0)) ls
    n.events 1 = some [0x62#8] ∧ n.events 0 = none ∧ n.nEvents = 1 ∧
      ¬ Guarded register Registers (plainNode.begin (fun _ => 0)) ls := by
  intro ls n
  refine ⟨by decide, by decide, by decide, ?_⟩
  rw [guarded_registers_iff (plainNode.begin_counted (fun _ => 0)) ls]
  decide

end Node

end Aquila.Protocol
