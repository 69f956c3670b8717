import Aquila.Protocol.Events

/-! # What user code cannot change

User code changes its own variables, emits events, and runs inside a database iteration.
A relation between states that each of these respects is respected by everything that
calls user code, however deep the emissions nest.
-/

namespace Aquila.Protocol
open Library ProtocolDB

variable {σ : Type}

def Node.eventPacket (n : Node σ) (e : Emission) : Sent :=
  send n.version e.dest (n.emitCommand e)

/-- A relation that every single effect of user code respects. -/
structure Node.Stable (n : Node σ) (R : NodeState σ → NodeState σ → Prop) : Prop where
  refl : ∀ s, R s s
  trans : ∀ {s s' s''}, R s s' → R s' s'' → R s s''
  vars : ∀ s vars, R s { s with vars := vars }
  emission : ∀ s e, R s { s with sent := s.sent ++ [n.eventPacket e] }
  iteratorBegin : ∀ s, R s { s with db := s.db.iteratorBegin }
  iteratorGetNextEntry : ∀ s header entry,
    R s { s with db := (s.db.iteratorGetNextEntry header entry).2.2 }

/-- Every emission that returns leads to a related state. -/
def Respects (emit : Emission → NodeState σ → Option (NodeState σ))
    (R : NodeState σ → NodeState σ → Prop) : Prop :=
  ∀ e s s', emit e s = some s' → R s s'

section
variable {n : Node σ} {R : NodeState σ → NodeState σ → Prop} (hR : n.Stable R)
  {emit : Emission → NodeState σ → Option (NodeState σ)} (hemit : Respects emit R)
include hR hemit

theorem Node.Stable.run (p : Program σ) (s s' : NodeState σ) (result : Bool)
    (h : p.run emit s = some (result, s')) : R s s' := by
  induction p generalizing s with
  | done r vars =>
    cases h
    exact hR.vars s vars
  | emit e vars next ih =>
    simp only [Program.run, Option.bind_eq_bind, Option.bind_eq_some_iff] at h
    rcases h with ⟨s₁, hs₁, hrest⟩
    exact hR.trans (hR.vars s vars) (hR.trans (hemit e _ s₁ hs₁) (ih s₁.vars s₁ hrest))

theorem Node.Stable.doAction (call : ActionCall) (s s' : NodeState σ) (result : Bool)
    (h : n.doAction emit call s = some (result, s')) : R s s' := by
  rw [Node.doAction] at h
  cases hfunction : n.actionFunction call with
  | none =>
    simp only [hfunction, Option.some.injEq, Prod.mk.injEq] at h
    rw [← h.2]
    exact hR.refl s
  | some function =>
    simp only [hfunction] at h
    exact hR.run hemit (function s.vars) s s' result h

theorem Node.Stable.checkLocalEvent (o : Occurrence) (subs : List (OnSubscription σ))
    (s s' : NodeState σ) (h : Node.checkLocalEvent emit o subs s = some s') : R s s' := by
  induction subs generalizing s with
  | nil =>
    cases h
    exact hR.refl _
  | cons sub subs ih =>
    cases hsub : Node.subscribed sub o with
    | none =>
      simp only [Node.checkLocalEvent, hsub] at h
      exact ih s h
    | some function =>
      simp only [Node.checkLocalEvent, hsub, Option.bind_eq_bind, Option.bind_eq_some_iff] at h
      rcases h with ⟨⟨result, s₁⟩, hs₁, hrest⟩
      exact hR.trans (hR.run hemit (function s.vars) s s₁ result hs₁) (ih s₁ hrest)

theorem Node.Stable.checkEntries (header : DBHeader) (o : Occurrence) (left : ℕ) (entry : Entry)
    (s s' : NodeState σ) (calls : List ActionCall)
    (h : n.checkEntries emit header o left entry s = some (calls, s')) : R s s' := by
  induction left generalizing entry s calls with
  | zero =>
    simp only [Node.checkEntries, Option.some.injEq, Prod.mk.injEq] at h
    rw [← h.2]
    exact hR.refl s
  | succ left ih =>
    simp only [Node.checkEntries] at h
    have hnext := hR.iteratorGetNextEntry s header entry
    split at h
    case isTrue =>
      simp only [Option.bind_eq_bind, Option.bind_eq_some_iff] at h
      rcases h with ⟨⟨result, s₁⟩, haction, ⟨rest, s₂⟩, hrest, hcalls⟩
      cases hcalls
      exact hR.trans hnext (hR.trans (hR.doAction hemit _ _ s₁ result haction)
        (ih _ s₁ rest hrest))
    case isFalse => exact hR.trans hnext (ih _ _ calls h)

theorem Node.Stable.checkEvent (locals : Locals) (o : Occurrence) (s s' : NodeState σ)
    (calls : List ActionCall) (h : n.checkEvent emit locals o s = some (calls, s')) : R s s' := by
  simp only [Node.checkEvent, Option.bind_eq_bind, Option.bind_eq_some_iff] at h
  rcases h with ⟨s₁, hlocal, hentries⟩
  exact hR.trans (hR.checkLocalEvent hemit o n.onSubs s s₁ hlocal)
    (hR.trans (hR.iteratorBegin s₁) (hR.checkEntries hemit _ o _ _ _ s' calls hentries))

end

/-- Emissions nested to any depth respect the relation. -/
theorem Node.Stable.emit {n : Node σ} {R : NodeState σ → NodeState σ → Prop} (hR : n.Stable R)
    (locals : Locals) (depth : ℕ) : Respects (n.emit locals depth) R := by
  induction depth with
  | zero =>
    intro e s s' h
    cases h
  | succ depth ih =>
    intro e s s' h
    simp only [Node.emit, Option.bind_eq_bind, Option.bind_eq_some_iff] at h
    rcases h with ⟨⟨calls, s₂⟩, hcheck, hs₂⟩
    cases hs₂
    exact hR.trans (hR.emission s e) (hR.checkEvent ih locals _ _ s₂ calls hcheck)

/-- The database differs at most in its iterator. -/
def SameRules (s s' : NodeState σ) : Prop := s.db.SameData s'.db

theorem Node.stable_sameRules (n : Node σ) : n.Stable SameRules where
  refl s := .refl s.db
  trans h h' := h.trans h'
  vars s _ := .refl s.db
  emission s _ := .refl s.db
  iteratorBegin s := s.db.iteratorBegin_sameData
  iteratorGetNextEntry s header entry := s.db.iteratorGetNextEntry_sameData header entry

def Node.OnlyEmits (n : Node σ) (s s' : NodeState σ) : Prop :=
  ∃ es : List Emission, s'.sent = s.sent ++ es.map n.eventPacket

theorem Node.stable_onlyEmits (n : Node σ) : n.Stable n.OnlyEmits where
  refl s := ⟨[], by simp⟩
  trans := by
    rintro s s' s'' ⟨es, hes⟩ ⟨es', hes'⟩
    exact ⟨es ++ es', by rw [hes', hes, List.map_append, List.append_assoc]⟩
  vars s _ := ⟨[], by simp⟩
  emission s e := ⟨[e], rfl⟩
  iteratorBegin s := ⟨[], by simp⟩
  iteratorGetNextEntry s _ _ := ⟨[], by simp⟩

end Aquila.Protocol
