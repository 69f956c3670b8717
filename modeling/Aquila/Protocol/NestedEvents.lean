import Aquila.Protocol.UserCode

/-! # Nested event dispatch

A nested `checkEvent` leaves the shared iterator spent, so the loop it interrupted makes
no further call. The induction on the depth shows this of `emit`, and the induction on
the loop compares the calls made with the rules still to be read.
-/

namespace Aquila.Protocol
open Library ProtocolDB

variable {σ : Type}

/-- The database is untouched, and with two rules or more its iterator is spent. -/
structure Exhausts (s s' : NodeState σ) : Prop where
  same : s.db.SameData s'.db
  spent : 2 ≤ s.db.rules.length → s'.db.Spent

theorem Exhausts.after {s s' s'' : NodeState σ} (h : Exhausts s' s'')
    (hsame : s.db.SameData s'.db) : Exhausts s s'' :=
  ⟨hsame.trans h.same, fun hlen => h.spent (hsame.rules_eq ▸ hlen)⟩

/-- What is known of an emission that returns. -/
def Exhausting (emit : Emission → NodeState σ → Option (NodeState σ)) : Prop :=
  ∀ e s s', s.db.Consistent → emit e s = some s' → Exhausts s s'

section
variable {emit : Emission → NodeState σ → Option (NodeState σ)} (hemit : Exhausting emit)
include hemit

/-- User code either emits nothing, or leaves the iterator spent. -/
theorem Program.run_cases (p : Program σ) (s s' : NodeState σ) (result : Bool)
    (hdb : s.db.Consistent) (h : p.run emit s = some (result, s')) :
    (∃ vars, p.silent = some vars ∧ s' = { s with vars := vars }) ∨
      (p.silent = none ∧ Exhausts s s') := by
  induction p generalizing s with
  | done r vars =>
    simp only [run, Option.some.injEq, Prod.mk.injEq] at h
    exact Or.inl ⟨vars, rfl, h.2.symm⟩
  | emit e vars next ih =>
    simp only [run, Option.bind_eq_bind, Option.bind_eq_some_iff] at h
    rcases h with ⟨s₁, hs₁, hrest⟩
    have hfirst : Exhausts { s with vars := vars } s₁ := hemit e _ s₁ hdb hs₁
    refine Or.inr ⟨rfl, ?_⟩
    rcases ih s₁.vars s₁ (hfirst.same.consistent hdb) hrest with ⟨vars', _, rfl⟩ | ⟨_, hlast⟩
    · exact ⟨hfirst.same, hfirst.spent⟩
    · exact hlast.after hfirst.same

namespace Node

theorem doAction_cases (n : Node σ) (call : ActionCall) (s s' : NodeState σ) (result : Bool)
    (hdb : s.db.Consistent) (h : n.doAction emit call s = some (result, s')) :
    (∃ vars, n.silentAction call s.vars = some vars ∧ s' = { s with vars := vars }) ∨
      (n.silentAction call s.vars = none ∧ Exhausts s s') := by
  unfold doAction at h
  rw [silentAction]
  cases hfunction : n.actionFunction call with
  | none =>
    simp only [hfunction, Option.some.injEq, Prod.mk.injEq] at h
    exact Or.inl ⟨s.vars, rfl, h.2.symm⟩
  | some function =>
    simp only [hfunction] at h
    exact (function s.vars).run_cases hemit s s' result hdb h

omit hemit in
/-- A spent iterator makes the rest of the loop call nothing. -/
theorem checkEntries_spent (n : Node σ) (header : DBHeader) (o : Occurrence) (left : ℕ)
    (entry : Entry) (s s' : NodeState σ) (calls : List ActionCall) (hdb : s.db.Consistent)
    (hspent : s.db.Spent) (h : n.checkEntries emit header o left entry s = some (calls, s')) :
    calls = [] ∧ s.db.SameData s'.db ∧ s'.db.Spent := by
  induction left generalizing entry s with
  | zero =>
    simp only [checkEntries, Option.some.injEq, Prod.mk.injEq] at h
    rcases h with ⟨rfl, rfl⟩
    exact ⟨rfl, .refl s.db, hspent⟩
  | succ left ih =>
    rcases hspent.next hdb header entry with ⟨herror, hspent', hsame⟩
    simp only [checkEntries, herror, reduceCtorEq, false_and, if_false] at h
    rcases ih _ { s with db := _ } (hsame.consistent hdb) hspent' h with ⟨hcalls, hsame', hlast⟩
    exact ⟨hcalls, hsame.trans hsame', hlast⟩

omit hemit in
/-- After an action that emitted, the loop calls nothing more: one rule leaves it no turn, and
with more of them the iterator is spent. -/
theorem checkEntries_exhausted (n : Node σ) (header : DBHeader) (o : Occurrence) (left : ℕ)
    (entry : Entry) (s s₁ s' : NodeState σ) (calls : List ActionCall) (hdb : s.db.Consistent)
    (hleft : left < s.db.rules.length) (hs₁ : Exhausts s s₁)
    (h : n.checkEntries emit header o left entry s₁ = some (calls, s')) :
    calls = [] ∧ Exhausts s s' := by
  by_cases hlen : 2 ≤ s.db.rules.length
  · obtain ⟨hnil, hsame, hspent⟩ := n.checkEntries_spent header o left entry s₁ s' calls
      (hs₁.same.consistent hdb) (hs₁.spent hlen) h
    exact ⟨hnil, hs₁.same.trans hsame, fun _ => hspent⟩
  · have hnone : left = 0 := by omega
    subst hnone
    cases h
    exact ⟨rfl, hs₁⟩

omit hemit in
theorem quiet_silent (n : Node σ) (call : ActionCall) (calls : List ActionCall) {vars vars' : σ}
    (h : n.silentAction call vars = some vars') :
    n.Quiet (call :: calls) vars ↔ n.Quiet calls vars' := by
  cases calls with
  | nil => exact Iff.rfl
  | cons call' calls =>
    constructor
    · rintro ⟨vars'', hvars'', hquiet⟩
      rw [h, Option.some_inj] at hvars''
      rw [hvars'']
      exact hquiet
    · exact fun hquiet => ⟨vars', h, hquiet⟩

omit hemit in
theorem quiet_emitting (n : Node σ) (call : ActionCall) (calls : List ActionCall) {vars : σ}
    (h : n.silentAction call vars = none) : n.Quiet (call :: calls) vars ↔ calls = [] := by
  cases calls with
  | nil => exact iff_of_true trivial rfl
  | cons call' calls =>
    apply iff_of_false _ (List.cons_ne_nil _ _)
    rintro ⟨vars', hvars', _⟩
    exact Option.some_ne_none vars' (hvars'.symm.trans h)

omit hemit in
theorem expected_cons (o : Occurrence) (rule : Entry) (rules : List Entry) :
    expected o (rule :: rules) =
      if Matches o rule then actionCall o rule :: expected o rules else expected o rules := by
  unfold expected
  by_cases h : Matches o rule <;> simp [h]

/-- A loop resumed at rule `k` makes the calls that are left exactly if they are quiet. -/
theorem checkEntries_resumed (n : Node σ) (header : DBHeader) (o : Occurrence) (left k : ℕ)
    (entry : Entry) (s s' : NodeState σ) (calls : List ActionCall) (hdb : s.db.Consistent)
    (hk : k + left = s.db.rules.length) (hresumed : s.db.Resumed k)
    (h : n.checkEntries emit header o left entry s = some (calls, s')) :
    Exhausts s s' ∧ (calls = expected o (s.db.rules.drop k) ↔
      n.Quiet (expected o (s.db.rules.drop k)) s.vars) := by
  induction left generalizing k entry s calls with
  | zero =>
    simp only [checkEntries, Option.some.injEq, Prod.mk.injEq] at h
    rcases h with ⟨rfl, rfl⟩
    refine ⟨⟨.refl s.db, fun hlen => hresumed.spent (by omega) (by omega)⟩, ?_⟩
    rw [List.drop_of_length_le (by omega)]
    exact iff_of_true rfl trivial
  | succ left ih =>
    obtain ⟨rule, hrule⟩ : ∃ rule, s.db.rules[k]? = some rule :=
      ⟨_, List.getElem?_eq_getElem (by omega)⟩
    have hdrop : s.db.rules.drop k = rule :: s.db.rules.drop (k + 1) := by
      rcases List.getElem?_eq_some_iff.mp hrule with ⟨hlt, hget⟩
      rw [List.drop_eq_getElem_cons hlt, hget]
    rcases hresumed.next hdb header entry rule hrule with ⟨hok, hnext, hresumed', hsame⟩
    simp only [checkEntries, hok, hnext, true_and, Option.getD_some] at h
    rw [hdrop, expected_cons]
    set s₁ : NodeState σ := { s with db := (s.db.iteratorGetNextEntry header entry).2.2 }
    have hdb₁ : s₁.db.Consistent := hsame.consistent hdb
    have hrules : s₁.db.rules = s.db.rules := hsame.rules_eq
    by_cases hmatches : Matches o rule
    · rw [if_pos hmatches] at h ⊢
      simp only [Option.bind_eq_bind, Option.bind_eq_some_iff] at h
      rcases h with ⟨⟨result, s₂⟩, haction, ⟨rest, s₃⟩, hrest, hcalls⟩
      cases hcalls
      rw [List.cons.injEq, and_iff_right rfl]
      rcases n.doAction_cases hemit _ s₁ s₂ result hdb₁ haction with
        ⟨vars, hsilent, rfl⟩ | ⟨hsilent, hexhausts⟩
      · -- the variables alone have changed, so the loop goes on at the next rule
        obtain ⟨hexhausts, hiff⟩ := ih (k + 1) rule { s₁ with vars := vars } rest hdb₁
          (by rw [hrules]; omega) hresumed' hrest
        rw [hrules] at hiff
        exact ⟨hexhausts.after hsame, hiff.trans (n.quiet_silent _ _ hsilent).symm⟩
      · have hleft : left < s₁.db.rules.length := by
          rw [hrules]
          omega
        obtain ⟨hnil, hexhausts'⟩ :=
          n.checkEntries_exhausted header o left rule s₁ s₂ s₃ rest hdb₁ hleft hexhausts hrest
        rw [hnil, eq_comm]
        exact ⟨hexhausts'.after hsame, (n.quiet_emitting _ _ hsilent).symm⟩
    · rw [if_neg hmatches] at h ⊢
      obtain ⟨hexhausts, hiff⟩ := ih (k + 1) rule s₁ calls hdb₁ (by rw [hrules]; omega)
        hresumed' h
      rw [hrules] at hiff
      exact ⟨hexhausts.after hsame, hiff⟩

theorem checkEvent_cases (hrules : Respects emit SameRules) (n : Node σ) (locals : Locals)
    (o : Occurrence) (s s₁ s' : NodeState σ) (calls : List ActionCall) (hdb : s.db.Consistent)
    (hlocal : checkLocalEvent emit o n.onSubs s = some s₁)
    (h : n.checkEvent emit locals o s = some (calls, s')) :
    Exhausts s s' ∧ (calls = expected o s.db.rules ↔
      n.Quiet (expected o s.db.rules) s₁.vars) := by
  have hsame : s.db.SameData s₁.db :=
    n.stable_sameRules.checkLocalEvent hrules o n.onSubs s s₁ hlocal
  have hdb₁ := hsame.consistent hdb
  have hle : ¬ maxEntries < s₁.db.header.nEntries.toNat := Nat.not_lt.mpr hdb₁.toNat_le
  simp only [checkEvent, Option.bind_eq_bind, hlocal, Option.bind_some,
    hdb₁.toOpen.readHeader, if_neg hle] at h
  have hbegin := s₁.db.iteratorBegin_sameData
  obtain ⟨hexhausts, hiff⟩ := n.checkEntries_resumed hemit locals.header o
    s₁.db.header.nEntries.toNat 0 locals.entry { s₁ with db := s₁.db.iteratorBegin } s' calls
    (hbegin.consistent hdb₁) (by rw [Nat.zero_add, hbegin.rules_eq, hdb₁.length_rules])
    s₁.db.iteratorBegin_resumed h
  rw [List.drop_zero, hbegin.rules_eq, hsame.rules_eq] at hiff
  exact ⟨hexhausts.after (hsame.trans hbegin), hiff⟩

end Node

end

namespace Node

/-- Whatever user code emits, a finite nesting exhausts the iterator. -/
theorem emit_exhausting (n : Node σ) (locals : Locals) (depth : ℕ) :
    Exhausting (n.emit locals depth) := by
  induction depth with
  | zero =>
    intro e s s' _ h
    cases h
  | succ depth ih =>
    intro e s s' hdb h
    simp only [emit, Option.bind_eq_bind, Option.bind_eq_some_iff] at h
    rcases h with ⟨⟨calls, s₂⟩, hcheck, hs₂⟩
    cases hs₂
    let sent : NodeState σ :=
      { s with sent := s.sent ++ [send n.version e.dest (n.emitCommand e)] }
    obtain ⟨s₁, hlocal⟩ : ∃ s₁, checkLocalEvent (n.emit locals depth) (n.ownOccurrence e)
        n.onSubs sent = some s₁ := by
      simp only [checkEvent, Option.bind_eq_bind, Option.bind_eq_some_iff] at hcheck
      exact ⟨_, hcheck.choose_spec.1⟩
    have hcases := (checkEvent_cases ih (n.stable_sameRules.emit locals depth) n locals _ sent s₁ s₂
      calls hdb hlocal hcheck).1
    exact ⟨hcases.same, hcases.spent⟩

/-- With finite nesting, `checkEvent` calls `doAction` once for each matching entry, in slot
order, exactly if no action but the last one called emits an event. -/
theorem checkEvent_calls_iff (n : Node σ) (locals : Locals) (depth : ℕ) (o : Occurrence)
    (s s₁ s' : NodeState σ) (calls : List ActionCall) (hdb : s.db.Consistent)
    (hlocal : checkLocalEvent (n.emit locals depth) o n.onSubs s = some s₁)
    (h : n.checkEvent (n.emit locals depth) locals o s = some (calls, s')) :
    calls = expected o s.db.rules ↔ n.Quiet (expected o s.db.rules) s₁.vars :=
  (checkEvent_cases (n.emit_exhausting locals depth) (n.stable_sameRules.emit locals depth) n locals
    o s s₁ s' calls hdb hlocal h).2

def exampleRule : Entry := ⟨⟨false, 0⟩, 5#8, fun _ => 1#8, 0#8, 0#8⟩

def exampleStore : Store where
  persist := { start := 0, size := BitVec.ofNat 16 persistSize, initialized := true }
  rom :=
    { cell a :=
        (109#8 :: 97#8 :: 107#8 :: 12#8 :: 2#8 :: 3#8 :: List.replicate 9 0#8 ++
          exampleRule.toBytes ++ exampleRule.toBytes).getD a.toNat 0
      written := [] }
  current := Store.origin
  currentEntry := 0

theorem exampleStore_consistent : exampleStore.Consistent where
  initialized := rfl
  size_eq := rfl
  nEntries_eq := by decide +kernel

/-- An action that emits event 0, as those of the template sketch do. -/
def turnOff : Action Unit where
  description := []
  function _ _ vars :=
    .emit ⟨Mesh.broadcast, 0, 0, false, fun _ => 0⟩ vars (fun vars => .done true vars)

def exampleNode (action : Action Unit) : Node Unit where
  version := protocolVersion
  id := []
  name := []
  euiAddress _ := 2#8
  shortAddr := 2
  nActions := 1
  nEvents := 1
  actions i := if i = 0 then some action else none
  events _ := none
  onSubs := []

def exampleState : NodeState Unit := ⟨exampleStore, (), []⟩

def exampleOccurrence : Occurrence := ⟨fun _ => 1#8, 5#8, 0#8, false, none, 1⟩

def exampleLocals : Locals := ⟨exampleStore.header, exampleRule⟩

def blink : Action Unit where
  description := []
  function _ _ vars := .done true vars

/-- An action that emits nothing is called for both rules. -/
theorem checkEvent_calls_blink :
    ∃ calls s', (exampleNode blink).checkEvent ((exampleNode blink).emit exampleLocals 0)
        exampleLocals exampleOccurrence exampleState = some (calls, s') ∧
      calls = expected exampleOccurrence exampleStore.rules := by
  have hcalls : ((exampleNode blink).checkEvent ((exampleNode blink).emit exampleLocals 0)
      exampleLocals exampleOccurrence exampleState).isSome := by
    decide +kernel
  rcases Option.isSome_iff_exists.mp hcalls with ⟨⟨calls, s'⟩, hrun⟩
  have hquiet : expected exampleOccurrence exampleStore.rules =
      [⟨0#8, 0#8, false⟩, ⟨0#8, 0#8, false⟩] := by decide +kernel
  refine ⟨calls, s', hrun, ?_⟩
  apply (checkEvent_calls_iff _ _ 0 _ exampleState exampleState s' calls exampleStore_consistent
    rfl hrun).mpr
  change (exampleNode blink).Quiet (expected exampleOccurrence exampleStore.rules) ()
  rw [hquiet]
  exact ⟨(), rfl, trivial⟩

/-- An action that emits is called for the first of two matching rules only. -/
theorem checkEvent_skips :
    ¬ ∀ (n : Node Unit) (locals : Locals) (depth : ℕ) (o : Occurrence) (s s' : NodeState Unit)
      (calls : List ActionCall), s.db.Consistent →
      n.checkEvent (n.emit locals depth) locals o s = some (calls, s') →
      calls = expected o s.db.rules := by
  intro hall
  have hcalls : ((exampleNode turnOff).checkEvent ((exampleNode turnOff).emit exampleLocals 1)
      exampleLocals exampleOccurrence exampleState).map Prod.fst = some [⟨0#8, 0#8, false⟩] := by
    decide +kernel
  rcases Option.map_eq_some_iff.mp hcalls with ⟨⟨calls, s'⟩, hrun, rfl⟩
  have hboth := hall _ _ 1 _ exampleState s' _ exampleStore_consistent hrun
  exact absurd hboth (by decide +kernel)

end Node

end Aquila.Protocol
