import Aquila.Lwm.Nwk

/-! # Requests and their buffers

The pointer to its buffer stays in a request after the transmission has ended, and the buffer
may be given to another request by then. The search of `nwkDataReqTxConf` still finds the right
one, since a request is given a buffer only when all those before it in the queue wait for
buffers of their own.
-/

namespace Aquila.Lwm

def NwkFrame.Owed (f : NwkFrame) : Prop := f.state ≠ .free ∧ f.confirm = true

/-- Each request that waits for its confirmation has a buffer of its own, and is the first in
the queue that points to it. -/
structure Owned (frames : FrameSlot → NwkFrame) (queue : List DataReq) : Prop where
  frame : ∀ r ∈ queue, r.state = .waitConf → ∃ i, r.frame = some i ∧ (frames i).Owed
  first : queue.Pairwise fun q r => r.state = .waitConf → q.frame ≠ r.frame
  request : ∀ i, (frames i).Owed → ∃ r ∈ queue, r.state = .waitConf ∧ r.frame = some i

theorem Owned.congr {frames frames' : FrameSlot → NwkFrame} {queue : List DataReq}
    (h : Owned frames queue) (hsame : ∀ i, (frames' i).Owed ↔ (frames i).Owed) :
    Owned frames' queue where
  frame r hr hwait := by
    rcases h.frame r hr hwait with ⟨i, hi, howed⟩
    exact ⟨i, hi, (hsame i).mpr howed⟩
  first := h.first
  request i howed := h.request i ((hsame i).mp howed)

theorem Owned.update {frames : FrameSlot → NwkFrame} {queue : List DataReq} {i : FrameSlot}
    {f : NwkFrame} (h : Owned frames queue) (hi : f.Owed ↔ (frames i).Owed) :
    Owned (Function.update frames i f) queue := by
  apply h.congr
  intro j
  by_cases hji : j = i
  · subst hji
    rw [Function.update_self, hi]
  · rw [Function.update_of_ne hji]

theorem Owned.post {frames : FrameSlot → NwkFrame} {queue : List DataReq} (h : Owned frames queue)
    {req : DataReq} (hstate : req.state = .initial) (hframe : req.frame = none) :
    Owned frames (req :: queue) where
  frame r hr hwait := by
    rcases List.mem_cons.mp hr with rfl | hr
    · rw [hstate] at hwait
      cases hwait
    · exact h.frame r hr hwait
  first := by
    rw [List.pairwise_cons]
    refine ⟨?_, h.first⟩
    intro r hr hwait hsame
    rcases h.frame r hr hwait with ⟨i, hi, _⟩
    rw [hframe, hi] at hsame
    cases hsame
  request i howed := by
    rcases h.request i howed with ⟨r, hr, hwait, hi⟩
    exact ⟨r, List.mem_cons_of_mem req hr, hwait, hi⟩

theorem mem_middle {α : Type*} {a b : α} {before after : List α} :
    a ∈ before ++ b :: after ↔ a = b ∨ a ∈ before ++ after := by
  rw [List.perm_middle.mem_iff, List.mem_cons]

/-- What is asked of the order of the queue is not asked of a request that does not wait. -/
theorem first_replace {before after : List DataReq} {req req' : DataReq}
    (h : (before ++ req :: after).Pairwise fun q r => r.state = .waitConf → q.frame ≠ r.frame)
    (hstate : req'.state ≠ .waitConf) (hframe : req'.frame = req.frame) :
    (before ++ req' :: after).Pairwise fun q r => r.state = .waitConf → q.frame ≠ r.frame := by
  rw [List.pairwise_append, List.pairwise_cons] at h ⊢
  rcases h with ⟨hbefore, ⟨hreq, hafter⟩, hcross⟩
  refine ⟨hbefore, ⟨?_, hafter⟩, ?_⟩
  · rw [hframe]
    exact hreq
  · intro q hq
    rw [List.forall_mem_cons]
    refine ⟨fun hwait => absurd hwait hstate, ?_⟩
    exact fun r hr => hcross q hq r (List.mem_cons_of_mem req hr)

theorem Owned.replace {frames : FrameSlot → NwkFrame} {before after : List DataReq}
    {req req' : DataReq} (h : Owned frames (before ++ req :: after))
    (hstate : req.state ≠ .waitConf) (hstate' : req'.state ≠ .waitConf)
    (hframe : req'.frame = req.frame) : Owned frames (before ++ req' :: after) where
  frame r hr hwait := by
    rcases mem_middle.mp hr with rfl | hr
    · exact absurd hwait hstate'
    · exact h.frame r (mem_middle.mpr (.inr hr)) hwait
  first := first_replace h.first hstate' hframe
  request i howed := by
    rcases h.request i howed with ⟨r, hr, hwait, hi⟩
    rcases mem_middle.mp hr with rfl | hr
    · exact absurd hwait hstate
    · exact ⟨r, mem_middle.mpr (.inr hr), hwait, hi⟩

theorem Owned.remove {frames : FrameSlot → NwkFrame} {before after : List DataReq} {req : DataReq}
    (h : Owned frames (before ++ req :: after)) (hstate : req.state ≠ .waitConf) :
    Owned frames (before ++ after) where
  frame r hr hwait := h.frame r (mem_middle.mpr (.inr hr)) hwait
  first :=
    List.Pairwise.sublist (List.Sublist.append_left (List.sublist_cons_self req after) before)
      h.first
  request i howed := by
    rcases h.request i howed with ⟨r, hr, hwait, hi⟩
    rcases mem_middle.mp hr with rfl | hr
    · exact absurd hwait hstate
    · exact ⟨r, hr, hwait, hi⟩

/-- A request that gets a free buffer; those before it in the queue all wait, so none of them
points to this buffer. -/
theorem Owned.launch {frames : FrameSlot → NwkFrame} {before after : List DataReq} {req : DataReq}
    (h : Owned frames (before ++ req :: after)) (hbefore : ∀ r ∈ before, r.state = .waitConf)
    (hstate : req.state ≠ .waitConf) {i : FrameSlot} (hi : (frames i).state = .free)
    {f : NwkFrame} (hf : f.Owed) :
    Owned (Function.update frames i f)
      (before ++ { req with frame := some i, state := .waitConf } :: after) := by
  have hne {j : FrameSlot} (hj : (frames j).Owed) : j ≠ i := by
    rintro rfl
    exact hj.1 hi
  have hkept {r : DataReq} (hr : r ∈ before ++ after) (hwait : r.state = .waitConf) :
      r.frame ≠ some i ∧ ∃ j, r.frame = some j ∧ (Function.update frames i f j).Owed := by
    rcases h.frame r (mem_middle.mpr (.inr hr)) hwait with ⟨j, hj, howed⟩
    constructor
    · rw [hj]
      exact fun hsame => hne howed (Option.some.inj hsame)
    · refine ⟨j, hj, ?_⟩
      rw [Function.update_of_ne (hne howed)]
      exact howed
  constructor
  case frame =>
    intro r hr hwait
    rcases mem_middle.mp hr with rfl | hr
    · refine ⟨i, rfl, ?_⟩
      rw [Function.update_self]
      exact hf
    · exact (hkept hr hwait).2
  case first =>
    have hfirst := h.first
    rw [List.pairwise_append, List.pairwise_cons] at hfirst ⊢
    rcases hfirst with ⟨hpairs, ⟨_, hafter⟩, hcross⟩
    refine ⟨hpairs, ⟨?_, hafter⟩, ?_⟩
    · intro r hr hwait
      exact ((hkept (List.mem_append_right before hr) hwait).1).symm
    · intro q hq
      rw [List.forall_mem_cons]
      constructor
      · exact fun _ => (hkept (List.mem_append_left after hq) (hbefore q hq)).1
      · exact fun r hr => hcross q hq r (List.mem_cons_of_mem req hr)
  case request =>
    intro j howed
    by_cases hji : j = i
    · subst hji
      exact ⟨_, mem_middle.mpr (.inl rfl), rfl, rfl⟩
    · rw [Function.update_of_ne hji] at howed
      rcases h.request j howed with ⟨r, hr, hwait, hj⟩
      rcases mem_middle.mp hr with rfl | hr
      · exact absurd hwait hstate
      · exact ⟨r, mem_middle.mpr (.inr hr), hwait, hj⟩

namespace Nwk

theorem confirmFirst_append {i : FrameSlot} (f : NwkFrame) {before : List DataReq}
    (hbefore : ∀ q ∈ before, q.frame ≠ some i) {req : DataReq} (hreq : req.frame = some i)
    (after : List DataReq) :
    confirmFirst i f (before ++ req :: after) =
      before ++ { req with status := f.status, control := f.control, state := .confirm } ::
        after := by
  induction before with
  | nil => rw [List.nil_append, confirmFirst, if_pos hreq, List.nil_append]
  | cons q before ih =>
    rw [List.forall_mem_cons] at hbefore
    rw [List.cons_append, confirmFirst, if_neg hbefore.1, ih hbefore.2, List.cons_append]

end Nwk

/-- The loop of `nwkDataReqTxConf` ends at the request that owns the buffer. -/
theorem Owned.confirmFirst {frames : FrameSlot → NwkFrame} {queue : List DataReq}
    (h : Owned frames queue) {i : FrameSlot} (hi : (frames i).Owed) (f : NwkFrame) :
    ∃ before req after, queue = before ++ req :: after ∧ req.state = .waitConf ∧
      req.frame = some i ∧ Nwk.confirmFirst i f queue =
        before ++ { req with status := f.status, control := f.control, state := .confirm } ::
          after := by
  rcases h.request i hi with ⟨req, hmem, hwait, hreq⟩
  rcases List.append_of_mem hmem with ⟨before, after, rfl⟩
  refine ⟨before, req, after, rfl, hwait, hreq, Nwk.confirmFirst_append f ?_ hreq after⟩
  intro q hq
  have hfirst := (List.pairwise_append.mp h.first).2.2 q hq req List.mem_cons_self hwait
  rwa [hreq] at hfirst

/-- The transmission of an owned buffer ends: its request no longer waits, and it is free. -/
theorem Owned.confirm {frames : FrameSlot → NwkFrame} {queue : List DataReq}
    (h : Owned frames queue) {i : FrameSlot} (hi : (frames i).Owed) (f : NwkFrame) {g : NwkFrame}
    (hg : g.state = .free) :
    Owned (Function.update frames i g) (Nwk.confirmFirst i f queue) := by
  rcases h.confirmFirst hi f with ⟨before, req, after, rfl, hwait, hreq, heq⟩
  rw [heq]
  have hfirst := h.first
  rw [List.pairwise_append, List.pairwise_cons] at hfirst
  rcases hfirst with ⟨_, ⟨hafter, _⟩, hcross⟩
  have hne {r : DataReq} (hr : r ∈ before ++ after) (hrwait : r.state = .waitConf) :
      r.frame ≠ some i := by
    rw [← hreq]
    rcases List.mem_append.mp hr with hr | hr
    · exact hcross r hr req List.mem_cons_self hwait
    · exact (hafter r hr hrwait).symm
  constructor
  case frame =>
    intro r hr hrwait
    rcases mem_middle.mp hr with rfl | hr
    · cases hrwait
    · rcases h.frame r (mem_middle.mpr (.inr hr)) hrwait with ⟨j, hj, howed⟩
      have hji : j ≠ i := by
        rintro rfl
        exact hne hr hrwait hj
      refine ⟨j, hj, ?_⟩
      rw [Function.update_of_ne hji]
      exact howed
  case first => exact first_replace h.first (by simp) rfl
  case request =>
    intro j howed
    by_cases hji : j = i
    · subst hji
      rw [Function.update_self] at howed
      exact absurd hg howed.1
    · rw [Function.update_of_ne hji] at howed
      rcases h.request j howed with ⟨r, hr, hrwait, hj⟩
      rcases mem_middle.mp hr with rfl | hr
      · rw [hreq] at hj
        exact absurd (Option.some.inj hj).symm hji
      · exact ⟨r, mem_middle.mpr (.inr hr), hrwait, hj⟩

end Aquila.Lwm
