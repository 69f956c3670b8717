import Aquila.Library.Run
import Aquila.Library.Countdown
import Aquila.Library.SlotTable
import Aquila.Lwm.Frame

/-! # The routing table

Routes are learned from the frames that arrive and judged by the frames that are sent. A
slot is unused exactly while its rank is at most one: the ranks of unused slots are halved
with all others, but they cannot reach the rank of a used one.
-/

namespace Aquila.Lwm
open Library Bridge Mesh

def nwkRouteUnknown : Word := 0xFFFF#16

def nwkRouteNonRouting : Word := 0x8000#16

def nwkRouteDefaultScore : Nibble := 3#4

def nwkRouteDefaultRank : Byte := 128#8

def nwkRouteMaxRank : Byte := 255#8

/-- `NWK_RouteTableEntry_t` -/
structure RouteEntry where
  fixed : Bool
  multicast : Bool
  score : Nibble
  dstAddr : Word
  nextHopAddr : Word
  rank : Byte
  lqi : Byte
  deriving DecidableEq

/-- An index into the `NWK_ROUTE_TABLE_SIZE` entries. -/
abbrev RouteSlot := Fin 30

/-- `nwkRouteTable` -/
abbrev RouteTable := RouteSlot → RouteEntry

def flag (b : Bool) : Byte := if b then 1 else 0

namespace RouteTable

/-- `nwkRouteInit`, on a table that the start of the program has cleared. -/
def init : RouteTable := fun _ =>
  { fixed := false, multicast := false, score := 0, dstAddr := nwkRouteUnknown, nextHopAddr := 0,
    rank := 0, lqi := 0 }

/-- `NWK_RouteFindEntry` -/
def findEntry (t : RouteTable) (dst : Word) (multicast : Byte) : Option RouteSlot :=
  (List.finRange 30).find? fun i => (t i).dstAddr == dst && flag (t i).multicast == multicast

/-- The loop of `NWK_RouteNewEntry` over the slots that are left, with the best one so far. -/
def newSlot (t : RouteTable) : List RouteSlot → Option RouteSlot → Option RouteSlot
  | [], entry => entry
  | i :: rest, entry =>
    if (t i).fixed then newSlot t rest entry
    else if (t i).rank = 0 then some i
    else newSlot t rest (if entry.all fun j => (t i).rank < (t j).rank then some i else entry)

/-- `NWK_RouteNewEntry`; if every entry were fixed, it would write through a null pointer. -/
def newEntry (t : RouteTable) : Option (RouteSlot × RouteTable) :=
  (newSlot t (List.finRange 30) none).map fun i =>
    (i, Function.update t i { t i with
      multicast := false, score := nwkRouteDefaultScore, rank := nwkRouteDefaultRank })

/-- `NWK_RouteFreeEntry` -/
def freeEntry (t : RouteTable) (i : RouteSlot) : RouteTable :=
  if (t i).fixed then t
  else Function.update t i { t i with dstAddr := nwkRouteUnknown, rank := 0 }

/-- `NWK_RouteNextHop` -/
def nextHop (t : RouteTable) (dst : Word) (multicast : Byte) : Word :=
  match t.findEntry dst multicast with
  | some i => (t i).nextHopAddr
  | none => nwkRouteUnknown

/-- `nwkRouteRemove` -/
def remove (t : RouteTable) (dst : Word) (multicast : Byte) : RouteTable :=
  match t.findEntry dst multicast with
  | some i => t.freeEntry i
  | none => t

/-- `nwkRouteNormalizeRanks` -/
def normalizeRanks (t : RouteTable) : RouteTable := fun i =>
  { t i with rank := ((t i).rank >>> 1) + 1 }

/-- The entry that `nwkRouteFrameReceived` finds or makes for the source of a frame, updated. -/
def frameReceived (t : RouteTable) (addr : Word) (header : NwkFrameHeader) (lqi : Byte) :
    RouteTable :=
  if header.macSrcAddr &&& nwkRouteNonRouting ≠ 0 ∧ header.macSrcAddr ≠ header.nwkSrcAddr then t
  else if header.macDstPanId = nwkBroadcastPanId then t
  else
    match t.findEntry header.nwkSrcAddr 0 with
    | some i =>
      let discovery := header.macDstAddr = nwkBroadcastAddr ∧ addr = header.nwkDstAddr
      if ((t i).nextHopAddr ≠ header.macSrcAddr ∧ (t i).lqi < lqi) ∨ discovery then
        Function.update t i { t i with
          nextHopAddr := header.macSrcAddr, score := nwkRouteDefaultScore, lqi := lqi }
      else Function.update t i { t i with lqi := lqi }
    | none =>
      match t.newEntry with
      | some (i, t) =>
        Function.update t i { t i with
          dstAddr := header.nwkSrcAddr, nextHopAddr := header.macSrcAddr, lqi := lqi }
      | none => t

/-- `nwkRouteFrameSent` -/
def frameSent (t : RouteTable) (header : NwkFrameHeader) (status : NwkStatus) : RouteTable :=
  if header.nwkDstAddr = nwkBroadcastAddr then t
  else
    match t.findEntry header.nwkDstAddr (flag header.multicast) with
    | none => t
    | some i =>
      if (t i).fixed then t
      else if status = .success then
        let rank := (t i).rank + 1
        let t : RouteTable :=
          Function.update t i { t i with score := nwkRouteDefaultScore, rank := rank }
        if rank = nwkRouteMaxRank then t.normalizeRanks else t
      else
        let score := (t i).score - 1
        let t : RouteTable := Function.update t i { t i with score := score }
        if score = 0 then t.freeEntry i else t

/-- The address that `nwkRoutePrepareTx` sends a frame to. -/
def prepareTx (t : RouteTable) (header : NwkFrameHeader) : Word :=
  if header.nwkDstAddr = nwkBroadcastAddr then nwkBroadcastAddr
  else if header.linkLocal then header.nwkDstAddr
  else t.nextHop header.nwkDstAddr (flag header.multicast)

/-- `nwkRouteErrorReceived`, on the bytes of the command. -/
def errorReceived (t : RouteTable) (data : List Byte) : Bool × RouteTable :=
  if data.length = 6 then
    (true, t.remove (wordOf (data.getD 3 0) (data.getD 4 0)) (data.getD 5 0))
  else (false, t)

/-- What the rest of the stack tells the routing table. -/
inductive Event where
  | received (addr : Word) (header : NwkFrameHeader) (lqi : Byte)
  | sent (header : NwkFrameHeader) (status : NwkStatus)
  | duplicate (dst : Word) (multicast : Byte)
  | error (data : List Byte)

def step (t : RouteTable) : Event → RouteTable
  | .received addr header lqi => t.frameReceived addr header lqi
  | .sent header status => t.frameSent header status
  | .duplicate dst multicast => t.remove dst multicast
  | .error data => (t.errorReceived data).2

end RouteTable

def RouteEntry.Used (e : RouteEntry) : Prop := 1 < e.rank.toNat

structure RouteEntry.Sound (e : RouteEntry) : Prop where
  fixed : e.fixed = false
  multicast : e.multicast = false
  unused : ¬ e.Used → e.dstAddr = nwkRouteUnknown
  score : e.Used → 0 < e.score.toNat ∧ e.score.toNat ≤ 3
  forwarder : e.Used → e.nextHopAddr &&& nwkRouteNonRouting ≠ 0 → e.nextHopAddr = e.dstAddr

namespace RouteEntry

theorem sound_freed {e : RouteEntry} (hfixed : e.fixed = false) (hmulticast : e.multicast = false) :
    RouteEntry.Sound { e with dstAddr := nwkRouteUnknown, rank := 0 } ∧
      ¬ RouteEntry.Used { e with dstAddr := nwkRouteUnknown, rank := 0 } := by
  have hunused : ¬ RouteEntry.Used { e with dstAddr := nwkRouteUnknown, rank := 0 } := by
    simp [Used]
  refine ⟨?_, hunused⟩
  constructor
  case fixed => exact hfixed
  case multicast => exact hmulticast
  case unused => exact fun _ => rfl
  case score => exact fun hused => absurd hused hunused
  case forwarder => exact fun hused => absurd hused hunused

theorem toNat_succ_rank {e : RouteEntry} (hrank : e.rank.toNat < 255) :
    (e.rank + 1).toNat = e.rank.toNat + 1 := by
  rw [BitVec.toNat_add]
  exact Nat.mod_eq_of_lt (by simp; omega)

theorem Sound.praised {e : RouteEntry} (h : e.Sound) (hused : e.Used)
    (hrank : e.rank.toNat < 255) :
    RouteEntry.Sound { e with score := nwkRouteDefaultScore, rank := e.rank + 1 } := by
  have hused' : 1 < e.rank.toNat := hused
  constructor
  case fixed => exact h.fixed
  case multicast => exact h.multicast
  case unused =>
    intro hunused
    rw [Used, toNat_succ_rank hrank] at hunused
    omega
  case score => exact fun _ => by simp [nwkRouteDefaultScore]
  case forwarder => exact fun _ => h.forwarder hused

theorem Sound.blamed {e : RouteEntry} (h : e.Sound) (hused : e.Used) (hscore : e.score - 1 ≠ 0) :
    RouteEntry.Sound { e with score := e.score - 1 } := by
  have hbounds := h.score hused
  have hpred : (e.score - 1).toNat = e.score.toNat - 1 := by
    rw [BitVec.toNat_sub_of_le]
    · rfl
    · rw [BitVec.le_def]
      exact hbounds.1
  have hne : (e.score - 1).toNat ≠ 0 := fun heq => hscore (BitVec.eq_of_toNat_eq heq)
  constructor
  case fixed => exact h.fixed
  case multicast => exact h.multicast
  case unused => exact h.unused
  case score =>
    intro _
    dsimp only
    omega
  case forwarder => exact h.forwarder

end RouteEntry

namespace RouteTable

/-- The entries are sound, and no two used ones have the same destination. -/
structure Consistent (t : RouteTable) : Prop where
  entry : ∀ i, (t i).Sound
  unique : ∀ i j, (t i).Used → (t j).Used → (t i).dstAddr = (t j).dstAddr → i = j

/-- No rank has reached the maximum either. -/
structure Sound (t : RouteTable) : Prop extends Consistent t where
  rank : ∀ i, (t i).rank.toNat < 255

theorem init_unused (i : RouteSlot) : ¬ (init i).Used := by
  simp [init, RouteEntry.Used]

theorem init_sound : init.Sound where
  entry i := by
    constructor
    case fixed => rfl
    case multicast => rfl
    case unused => exact fun _ => rfl
    case score => exact fun h => absurd h (init_unused i)
    case forwarder => exact fun h => absurd h (init_unused i)
  unique i j h := absurd h (init_unused i)
  rank i := by simp [init]

theorem Consistent.update {t : RouteTable} (h : t.Consistent) (i : RouteSlot) {e : RouteEntry}
    (he : e.Sound) (hdst : e.Used → ∀ j, j ≠ i → (t j).Used → (t j).dstAddr ≠ e.dstAddr) :
    Consistent (Function.update t i e) where
  entry j := by
    rw [Function.update_apply]
    split
    case isTrue => exact he
    case isFalse => exact h.entry j
  unique j k := by
    simp only [Function.update_apply]
    split <;> split
    case isTrue.isTrue hj hk => exact fun _ _ _ => hj.trans hk.symm
    case isTrue.isFalse hj hk =>
      exact fun hje hke heq => absurd heq.symm (hdst hje k hk hke)
    case isFalse.isTrue hj hk => exact fun hje hke heq => absurd heq (hdst hke j hj hje)
    case isFalse.isFalse => exact h.unique j k

/-- A write that does not put an entry into use and keeps its destination. -/
theorem Consistent.update_same {t : RouteTable} (h : t.Consistent) (i : RouteSlot)
    {e : RouteEntry} (he : e.Sound) (hused : e.Used → (t i).Used)
    (hdst : e.dstAddr = (t i).dstAddr) : Consistent (Function.update t i e) := by
  apply h.update i he
  intro hue j hj hju heq
  exact hj (h.unique j i hju (hused hue) (heq.trans hdst))

theorem rank_update {t : RouteTable} (h : ∀ j, (t j).rank.toNat < 255) (i : RouteSlot)
    {e : RouteEntry} (he : e.rank.toNat < 255) (j : RouteSlot) :
    (Function.update t i e j).rank.toNat < 255 := by
  rw [Function.update_apply]
  split
  case isTrue => exact he
  case isFalse => exact h j

theorem findEntry_some {t : RouteTable} {dst : Word} {multicast : Byte} {i : RouteSlot}
    (h : t.findEntry dst multicast = some i) :
    (t i).dstAddr = dst ∧ flag (t i).multicast = multicast := by
  have hi := List.find?_some h
  rw [Bool.and_eq_true, beq_iff_eq, beq_iff_eq] at hi
  exact hi

theorem findEntry_none {t : RouteTable} {dst : Word} {multicast : Byte}
    (h : t.findEntry dst multicast = none) (i : RouteSlot)
    (hmulticast : flag (t i).multicast = multicast) : (t i).dstAddr ≠ dst := by
  intro hdst
  have hi := List.find?_eq_none.mp h i (List.mem_finRange i)
  rw [Bool.and_eq_true, beq_iff_eq, beq_iff_eq] at hi
  exact hi ⟨hdst, hmulticast⟩

theorem Consistent.used {t : RouteTable} (h : t.Consistent) {i : RouteSlot}
    (hi : (t i).dstAddr ≠ nwkRouteUnknown) : (t i).Used := by
  by_contra hunused
  exact hi ((h.entry i).unused hunused)

theorem Consistent.same_slot {t : RouteTable} (h : t.Consistent) {i j : RouteSlot} {d : Word}
    (hd : d ≠ nwkRouteUnknown) (hi : (t i).dstAddr = d) (hj : (t j).dstAddr = d) : i = j := by
  have hiu := h.used (hi.trans_ne hd)
  have hju := h.used (hj.trans_ne hd)
  exact h.unique i j hiu hju (hi.trans hj.symm)

theorem Consistent.findEntry_iff {t : RouteTable} (h : t.Consistent) {dst : Word} {i : RouteSlot}
    (hdst : dst ≠ nwkRouteUnknown) : t.findEntry dst 0 = some i ↔ (t i).dstAddr = dst := by
  constructor
  · intro hfind
    exact (findEntry_some hfind).1
  · intro hi
    cases hfind : t.findEntry dst 0 with
    | none =>
      have hflag : flag (t i).multicast = 0 := by
        rw [(h.entry i).multicast]
        rfl
      exact absurd hi (findEntry_none hfind i hflag)
    | some j =>
      have hj := (findEntry_some hfind).1
      rw [h.same_slot hdst hj hi]

/-- The slot that a new entry takes has the smallest rank of those looked at. -/
theorem newSlot_some {t : RouteTable} (ht : ∀ i, (t i).fixed = false) {slots : List RouteSlot}
    {entry : Option RouteSlot} {i : RouteSlot} (h : newSlot t slots entry = some i) :
    (∀ j ∈ slots, (t i).rank.toNat ≤ (t j).rank.toNat) ∧
      ∀ j, entry = some j → (t i).rank.toNat ≤ (t j).rank.toNat := by
  induction slots generalizing entry with
  | nil =>
    rw [newSlot] at h
    constructor
    · simp
    · intro j hj
      rw [h, Option.some_inj] at hj
      rw [hj]
  | cons k slots ih =>
    rw [newSlot, ht k, if_neg Bool.false_ne_true] at h
    split at h
    case isTrue hzero =>
      rw [Option.some_inj] at h
      subst h
      rw [hzero]
      constructor
      · exact fun j _ => Nat.zero_le _
      · exact fun j _ => Nat.zero_le _
    case isFalse hzero =>
      rcases ih h with ⟨hrest, hbest⟩
      split at hbest
      case isTrue hall =>
        have hik := hbest k rfl
        constructor
        · exact List.forall_mem_cons.mpr ⟨hik, hrest⟩
        · rintro j rfl
          rw [Option.all_some, decide_eq_true_eq, BitVec.lt_def] at hall
          omega
      case isFalse hall =>
        cases entry with
        | none => exact absurd Option.all_none hall
        | some m =>
          have him := hbest m rfl
          rw [Option.all_some, decide_eq_true_eq, BitVec.lt_def] at hall
          constructor
          · exact List.forall_mem_cons.mpr ⟨by omega, hrest⟩
          · exact hbest

theorem newSlot_isSome {t : RouteTable} (ht : ∀ i, (t i).fixed = false) {slots : List RouteSlot}
    {entry : Option RouteSlot} (h : slots ≠ [] ∨ entry.isSome) :
    (newSlot t slots entry).isSome := by
  induction slots generalizing entry with
  | nil => simpa [newSlot] using h
  | cons k slots ih =>
    rw [newSlot, ht k, if_neg Bool.false_ne_true]
    split
    case isTrue => rfl
    case isFalse =>
      apply ih
      split
      case isTrue => exact .inr rfl
      case isFalse hall =>
        cases entry with
        | none => exact absurd Option.all_none hall
        | some m => exact .inr rfl

theorem Consistent.newEntry_some {t : RouteTable} (h : t.Consistent) :
    ∃ i, (∀ j, (t i).rank.toNat ≤ (t j).rank.toNat) ∧
      t.newEntry = some (i, Function.update t i { t i with
        multicast := false, score := nwkRouteDefaultScore, rank := nwkRouteDefaultRank }) := by
  have hfixed (i : RouteSlot) : (t i).fixed = false := (h.entry i).fixed
  have hsome : (newSlot t (List.finRange 30) none).isSome :=
    newSlot_isSome hfixed (.inl (by simp))
  rcases Option.isSome_iff_exists.mp hsome with ⟨i, hi⟩
  refine ⟨i, ?_, ?_⟩
  · exact fun j => (newSlot_some hfixed hi).1 j (List.mem_finRange j)
  · rw [newEntry, hi]
    rfl

theorem Consistent.freeEntry_eq {t : RouteTable} (h : t.Consistent) (i : RouteSlot) :
    t.freeEntry i = Function.update t i { t i with dstAddr := nwkRouteUnknown, rank := 0 } := by
  rw [freeEntry, (h.entry i).fixed, if_neg Bool.false_ne_true]

theorem Sound.update_freed {t : RouteTable} (h : t.Sound) (i : RouteSlot) {e : RouteEntry}
    (hfixed : e.fixed = false) (hmulticast : e.multicast = false) :
    Sound (Function.update t i { e with dstAddr := nwkRouteUnknown, rank := 0 }) := by
  rcases RouteEntry.sound_freed hfixed hmulticast with ⟨hsound, hunused⟩
  constructor
  · exact h.toConsistent.update i hsound (fun hused => absurd hused hunused)
  · exact rank_update h.rank i (by simp)

theorem Sound.freeEntry {t : RouteTable} (h : t.Sound) (i : RouteSlot) :
    Sound (t.freeEntry i) := by
  rw [h.toConsistent.freeEntry_eq i]
  exact h.update_freed i (h.entry i).fixed (h.entry i).multicast

theorem Sound.remove {t : RouteTable} (h : t.Sound) (dst : Word) (multicast : Byte) :
    Sound (t.remove dst multicast) := by
  rw [RouteTable.remove]
  split
  case h_1 i _ => exact h.freeEntry i
  case h_2 => exact h

theorem rank_normalizeRanks (t : RouteTable) (i : RouteSlot) :
    (t.normalizeRanks i).rank.toNat = (t i).rank.toNat / 2 + 1 := by
  have hlt := (t i).rank.isLt
  simp only [normalizeRanks, BitVec.toNat_add, BitVec.toNat_ushiftRight, Nat.shiftRight_one]
  change ((t i).rank.toNat / 2 + 1) % 256 = _
  omega

theorem used_normalizeRanks (t : RouteTable) (i : RouteSlot) :
    (t.normalizeRanks i).Used ↔ (t i).Used := by
  rw [RouteEntry.Used, RouteEntry.Used, rank_normalizeRanks]
  omega

theorem Consistent.normalizeRanks {t : RouteTable} (h : t.Consistent) :
    Sound (t.normalizeRanks) where
  entry i := by
    constructor
    case fixed => exact (h.entry i).fixed
    case multicast => exact (h.entry i).multicast
    case unused =>
      rw [used_normalizeRanks]
      exact (h.entry i).unused
    case score =>
      rw [used_normalizeRanks]
      exact (h.entry i).score
    case forwarder =>
      rw [used_normalizeRanks]
      exact (h.entry i).forwarder
  unique i j := by
    rw [used_normalizeRanks, used_normalizeRanks]
    exact h.unique i j
  rank i := by
    have hlt := (t i).rank.isLt
    rw [rank_normalizeRanks]
    omega

/-- The sender of a frame, if it does not forward for others, sent it for itself. -/
def Direct (header : NwkFrameHeader) : Prop :=
  header.macSrcAddr &&& nwkRouteNonRouting ≠ 0 → header.macSrcAddr = header.nwkSrcAddr

instance decidableDirect (header : NwkFrameHeader) : Decidable (Direct header) :=
  inferInstanceAs (Decidable (_ → _))

def learned (header : NwkFrameHeader) (lqi : Byte) : RouteEntry where
  fixed := false
  multicast := false
  score := nwkRouteDefaultScore
  dstAddr := header.nwkSrcAddr
  nextHopAddr := header.macSrcAddr
  rank := nwkRouteDefaultRank
  lqi := lqi

/-- Where frames for a destination go, how many failures that survives, and how well its source
was last heard. -/
structure Route where
  nextHopAddr : Word
  score : Nibble
  lqi : Byte
  deriving DecidableEq

def entryRoute (e : RouteEntry) : Route := ⟨e.nextHopAddr, e.score, e.lqi⟩

def learn (addr : Word) (header : NwkFrameHeader) (lqi : Byte) : Option Route → Route
  | none => ⟨header.macSrcAddr, nwkRouteDefaultScore, lqi⟩
  | some r =>
    if (r.nextHopAddr ≠ header.macSrcAddr ∧ r.lqi < lqi) ∨
        (header.macDstAddr = nwkBroadcastAddr ∧ addr = header.nwkDstAddr) then
      ⟨header.macSrcAddr, nwkRouteDefaultScore, lqi⟩
    else { r with lqi := lqi }

def withRoute (e : RouteEntry) (r : Route) : RouteEntry :=
  { e with nextHopAddr := r.nextHopAddr, score := r.score, lqi := r.lqi }

/-- What `nwkRouteFrameReceived` can do to a table: it rewrites the entry of the source, or makes
one in a slot of the smallest rank. -/
theorem Consistent.frameReceived_cases {t : RouteTable} (h : t.Consistent) (addr : Word)
    (header : NwkFrameHeader) (lqi : Byte) :
    ((¬ Direct header ∨ header.macDstPanId = nwkBroadcastPanId) ∧
      t.frameReceived addr header lqi = t) ∨
    (Direct header ∧ header.macDstPanId ≠ nwkBroadcastPanId ∧
      ((∃ i, (t i).dstAddr = header.nwkSrcAddr ∧
        t.frameReceived addr header lqi = Function.update t i
          (withRoute (t i) (learn addr header lqi (some (entryRoute (t i)))))) ∨
      ∃ i, (∀ j, (t i).rank.toNat ≤ (t j).rank.toNat) ∧
        (∀ j, (t j).dstAddr ≠ header.nwkSrcAddr) ∧
        t.frameReceived addr header lqi = Function.update t i (learned header lqi))) := by
  rw [frameReceived]
  split
  case isTrue hother => exact .inl ⟨.inl (fun hdirect => hother.2 (hdirect hother.1)), rfl⟩
  case isFalse hdirect =>
    have hdirect' : Direct header := fun hmac => by
      by_contra hne
      exact hdirect ⟨hmac, hne⟩
    split
    case isTrue hpan => exact .inl ⟨.inr hpan, rfl⟩
    case isFalse hpan =>
      refine .inr ⟨hdirect', hpan, ?_⟩
      split
      case h_1 i hfind =>
        refine .inl ⟨i, (findEntry_some hfind).1, ?_⟩
        dsimp only [learn, entryRoute]
        split
        case isTrue => rfl
        case isFalse => rfl
      case h_2 hfind =>
        rcases h.newEntry_some with ⟨i, hmin, hnew⟩
        rw [hnew]
        refine .inr ⟨i, hmin, ?_, ?_⟩
        · intro j
          apply findEntry_none hfind j
          rw [(h.entry j).multicast]
          rfl
        · dsimp only
          rw [Function.update_idem, Function.update_self, learned, (h.entry i).fixed]

theorem learned_sound {header : NwkFrameHeader} (h : Direct header) (lqi : Byte) :
    (learned header lqi).Sound where
  fixed := rfl
  multicast := rfl
  unused hunused := absurd (by simp [RouteEntry.Used, learned, nwkRouteDefaultRank]) hunused
  score _ := by simp [learned, nwkRouteDefaultScore]
  forwarder _ := h

theorem sound_withRoute {e : RouteEntry} (h : e.Sound) (addr : Word) {header : NwkFrameHeader}
    (lqi : Byte) (hdirect : Direct header) (hdst : e.dstAddr = header.nwkSrcAddr) :
    (withRoute e (learn addr header lqi (some (entryRoute e)))).Sound := by
  rw [learn]
  split
  case isTrue =>
    constructor
    case fixed => exact h.fixed
    case multicast => exact h.multicast
    case unused => exact h.unused
    case score => exact fun _ => by simp [withRoute, nwkRouteDefaultScore]
    case forwarder => exact fun _ hmac => (hdirect hmac).trans hdst.symm
  case isFalse => exact ⟨h.fixed, h.multicast, h.unused, h.score, h.forwarder⟩

theorem Sound.frameReceived {t : RouteTable} (h : t.Sound) (addr : Word)
    (header : NwkFrameHeader) (lqi : Byte) : Sound (t.frameReceived addr header lqi) := by
  rcases h.toConsistent.frameReceived_cases addr header lqi with
    ⟨_, heq⟩ | ⟨hdirect, _, ⟨i, hdst, heq⟩ | ⟨i, _, hnone, heq⟩⟩
  · rw [heq]
    exact h
  · rw [heq]
    constructor
    · have hsound := sound_withRoute (h.entry i) addr lqi hdirect hdst
      exact h.toConsistent.update_same i hsound id rfl
    · exact rank_update h.rank i (h.rank i)
  · rw [heq]
    constructor
    · apply h.toConsistent.update i (learned_sound hdirect lqi)
      exact fun _ j _ _ => hnone j
    · exact rank_update h.rank i (by simp [learned, nwkRouteDefaultRank])

/-- What `nwkRouteFrameSent` can do to a table: it leaves it as it is when it has no entry for the
destination, and otherwise praises or blames the entry. -/
theorem Sound.frameSent_cases {t : RouteTable} (h : t.Sound) (header : NwkFrameHeader)
    (status : NwkStatus) :
    (t.frameSent header status = t ∧ (header.nwkDstAddr = nwkRouteUnknown ∨ header.multicast ∨
      ∀ i, (t i).dstAddr ≠ header.nwkDstAddr)) ∨
    (header.multicast = false ∧ header.nwkDstAddr ≠ nwkRouteUnknown ∧
      ∃ i, (t i).dstAddr = header.nwkDstAddr ∧ (t i).Used ∧
      t.frameSent header status =
        if status = .success then
          let t' : RouteTable := Function.update t i { t i with
            score := nwkRouteDefaultScore, rank := (t i).rank + 1 }
          if (t i).rank + 1 = nwkRouteMaxRank then t'.normalizeRanks else t'
        else
          let e := { t i with score := (t i).score - 1 }
          Function.update t i (if (t i).score - 1 = 0 then
            { e with dstAddr := nwkRouteUnknown, rank := 0 } else e)) := by
  rw [frameSent]
  split
  case isTrue hbroadcast => exact .inl ⟨rfl, .inl hbroadcast⟩
  case isFalse hbroadcast =>
    split
    case h_1 hfind =>
      refine .inl ⟨rfl, .inr ?_⟩
      cases hmulticast : header.multicast with
      | true => exact .inl rfl
      | false =>
        refine .inr fun i => findEntry_none hfind i ?_
        rw [(h.entry i).multicast, hmulticast]
    case h_2 i hfind =>
      rcases findEntry_some hfind with ⟨hdst, hflag⟩
      have hmulticast : header.multicast = false := by
        rw [(h.entry i).multicast] at hflag
        cases hm : header.multicast with
        | true => exact absurd hflag (by rw [hm]; decide)
        | false => rfl
      have hused : (t i).Used := h.used (hdst.trans_ne hbroadcast)
      refine .inr ⟨hmulticast, hbroadcast, i, hdst, hused, ?_⟩
      rw [(h.entry i).fixed, if_neg Bool.false_ne_true]
      split
      case isTrue => rfl
      case isFalse =>
        dsimp only
        split
        case isTrue hzero =>
          rw [RouteTable.freeEntry, Function.update_self]
          simp only [(h.entry i).fixed, Bool.false_eq_true, if_false, Function.update_idem]
        case isFalse => rfl

theorem Sound.praised {t : RouteTable} (h : t.Sound) {i : RouteSlot} (hused : (t i).Used) :
    Consistent (Function.update t i { t i with
      score := nwkRouteDefaultScore, rank := (t i).rank + 1 }) :=
  h.toConsistent.update_same i ((h.entry i).praised hused (h.rank i)) (fun _ => hused) rfl

theorem Sound.blamed {t : RouteTable} (h : t.Sound) {i : RouteSlot} (hused : (t i).Used) :
    Sound (Function.update t i (if (t i).score - 1 = 0 then
      { t i with score := (t i).score - 1, dstAddr := nwkRouteUnknown, rank := 0 }
      else { t i with score := (t i).score - 1 })) := by
  split
  case isTrue =>
    exact h.update_freed i (e := { t i with score := (t i).score - 1 })
      (h.entry i).fixed (h.entry i).multicast
  case isFalse hscore =>
    constructor
    · exact h.toConsistent.update_same i ((h.entry i).blamed hused hscore) id rfl
    · exact rank_update h.rank i (h.rank i)

theorem Sound.frameSent {t : RouteTable} (h : t.Sound) (header : NwkFrameHeader)
    (status : NwkStatus) : Sound (t.frameSent header status) := by
  rcases h.frameSent_cases header status with ⟨heq, _⟩ | ⟨_, _, i, _, hused, heq⟩
  · rw [heq]
    exact h
  · rw [heq]
    split
    case isTrue =>
      dsimp only
      split
      case isTrue => exact (h.praised hused).normalizeRanks
      case isFalse hmax =>
        refine ⟨h.praised hused, rank_update h.rank i ?_⟩
        have hsucc := RouteEntry.toNat_succ_rank (h.rank i)
        have hne : ((t i).rank + 1).toNat ≠ 255 := fun heq => hmax (BitVec.eq_of_toNat_eq heq)
        have hrank := h.rank i
        dsimp only
        omega
    case isFalse => exact h.blamed hused

theorem Sound.step {t : RouteTable} (h : t.Sound) (e : Event) : Sound (t.step e) := by
  cases e with
  | received addr header lqi => exact h.frameReceived addr header lqi
  | sent header status => exact h.frameSent header status
  | duplicate dst multicast => exact h.remove dst multicast
  | error data =>
    rw [RouteTable.step, errorReceived]
    split
    case isTrue => exact h.remove _ _
    case isFalse => exact h

theorem run_sound (events : List Event) : Sound (run step init events) :=
  run_invariant (fun _ e h => h.step e) init_sound events

/-! ### The table as a map -/

def routeOf (t : RouteTable) (d : Word) : Option Route :=
  (t.findEntry d 0).map fun i => entryRoute (t i)

theorem Consistent.routeOf_eq {t : RouteTable} (h : t.Consistent) {d : Word} {i : RouteSlot}
    (hd : d ≠ nwkRouteUnknown) (hi : (t i).dstAddr = d) :
    t.routeOf d = some (entryRoute (t i)) := by
  rw [routeOf, (h.findEntry_iff hd).mpr hi]
  rfl

theorem routeOf_none {t : RouteTable} {d : Word} (hi : ∀ i, (t i).dstAddr ≠ d) :
    t.routeOf d = none := by
  have hnone : t.findEntry d 0 = none := by
    apply Option.eq_none_iff_forall_ne_some.mpr
    intro i hfind
    exact hi i (findEntry_some hfind).1
  rw [routeOf, hnone]
  rfl

/-- A write gives its own destination a route, takes away the one the slot had, and changes no
other. -/
theorem Consistent.routeOf_update {t : RouteTable} (h : t.Consistent) {i : RouteSlot}
    {e : RouteEntry} (h' : Consistent (Function.update t i e)) {d : Word}
    (hd : d ≠ nwkRouteUnknown) :
    routeOf (Function.update t i e) d =
      if e.dstAddr = d then some (entryRoute e)
      else if (t i).dstAddr = d then none else t.routeOf d := by
  split
  case isTrue he =>
    have hi : (Function.update t i e i).dstAddr = d := by rwa [Function.update_self]
    rw [h'.routeOf_eq hd hi, Function.update_self]
  case isFalse he =>
    split
    case isTrue hi =>
      apply routeOf_none
      intro j
      rw [Function.update_apply]
      split
      case isTrue => exact he
      case isFalse hj => exact fun hjd => hj (h.same_slot hd hjd hi)
    case isFalse hi =>
      by_cases hsome : ∃ j, (t j).dstAddr = d
      · rcases hsome with ⟨j, hj⟩
        have hji : j ≠ i := fun hji => hi (hji ▸ hj)
        have hj' : (Function.update t i e j).dstAddr = d := by rwa [Function.update_of_ne hji]
        rw [h'.routeOf_eq hd hj', h.routeOf_eq hd hj, Function.update_of_ne hji]
      · rw [not_exists] at hsome
        rw [routeOf_none hsome]
        apply routeOf_none
        intro j
        rw [Function.update_apply]
        split
        case isTrue => exact he
        case isFalse => exact hsome j

theorem Consistent.routeOf_rewrite {t : RouteTable} (h : t.Consistent) {i : RouteSlot}
    {e : RouteEntry} (h' : Consistent (Function.update t i e)) {D d : Word}
    (hd : d ≠ nwkRouteUnknown) (hi : (t i).dstAddr = D) (he : e.dstAddr = D) :
    routeOf (Function.update t i e) d =
      Function.update t.routeOf D (some (entryRoute e)) d := by
  rw [h.routeOf_update h' hd, he, hi, Function.update_apply]
  by_cases hD : D = d
  · rw [if_pos hD, if_pos hD.symm]
  · rw [if_neg hD, if_neg hD, if_neg (Ne.symm hD)]

theorem Consistent.routeOf_forget {t : RouteTable} (h : t.Consistent) {i : RouteSlot}
    {e : RouteEntry} (h' : Consistent (Function.update t i e)) {D d : Word}
    (hd : d ≠ nwkRouteUnknown) (hi : (t i).dstAddr = D) (he : e.dstAddr = nwkRouteUnknown) :
    routeOf (Function.update t i e) d = Function.update t.routeOf D none d := by
  rw [h.routeOf_update h' hd, he, hi, if_neg (Ne.symm hd), Function.update_apply]
  by_cases hD : D = d
  · rw [if_pos hD, if_pos hD.symm]
  · rw [if_neg hD, if_neg (Ne.symm hD)]

def judge (success : Prop) [Decidable success] (r : Route) : Option Route :=
  if success then some { r with score := nwkRouteDefaultScore }
  else if r.score - 1 = 0 then none else some { r with score := r.score - 1 }

/-- What is known of all destinations, were there room for every one. -/
abbrev RouteMap := Word → Option Route

def mapStep (m : RouteMap) : Event → RouteMap
  | .received addr header lqi =>
    if ¬ Direct header ∨ header.macDstPanId = nwkBroadcastPanId then m
    else Function.update m header.nwkSrcAddr (some (learn addr header lqi (m header.nwkSrcAddr)))
  | .sent header status =>
    if header.multicast then m
    else
      Function.update m header.nwkDstAddr ((m header.nwkDstAddr).bind (judge (status = .success)))
  | .duplicate dst multicast => if multicast = 0 then Function.update m dst none else m
  | .error data =>
    if data.length = 6 ∧ data.getD 5 0 = 0 then
      Function.update m (wordOf (data.getD 3 0) (data.getD 4 0)) none
    else m

theorem Sound.routeOf_frameSent {t : RouteTable} (h : t.Sound) (header : NwkFrameHeader)
    (status : NwkStatus) {d : Word} (hd : d ≠ nwkRouteUnknown) :
    routeOf (t.frameSent header status) d = mapStep t.routeOf (.sent header status) d := by
  rcases h.frameSent_cases header status with
    ⟨heq, hnone⟩ | ⟨hmulticast, hdst, i, hi, hused, heq⟩
  · rw [heq, mapStep]
    split
    case isTrue => rfl
    case isFalse hmulticast =>
      rw [Function.update_apply]
      split
      case isTrue hdst =>
        rcases hnone with hunknown | hm | hnone
        · exact absurd (hdst.trans hunknown) hd
        · exact absurd hm hmulticast
        · rw [hdst, routeOf_none hnone]
          rfl
      case isFalse => rfl
  · have hroute : t.routeOf header.nwkDstAddr = some (entryRoute (t i)) :=
      h.toConsistent.routeOf_eq hdst hi
    rw [heq, mapStep, hmulticast, if_neg Bool.false_ne_true, hroute, Option.bind_some, judge]
    split
    case isTrue =>
      have hpraised := h.toConsistent.routeOf_rewrite (h.praised hused) hd hi hi
      dsimp only
      split
      case isTrue => exact hpraised
      case isFalse => exact hpraised
    case isFalse =>
      have hblamed := h.blamed hused
      by_cases hscore : (t i).score - 1 = 0
      · simp only [if_pos hscore] at hblamed ⊢
        rw [h.toConsistent.routeOf_forget hblamed.toConsistent hd hi rfl, entryRoute,
          if_pos hscore]
      · simp only [if_neg hscore] at hblamed ⊢
        rw [h.toConsistent.routeOf_rewrite hblamed.toConsistent hd hi hi, entryRoute, entryRoute,
          if_neg hscore]

theorem Sound.routeOf_remove {t : RouteTable} (h : t.Sound) (dst : Word) (multicast : Byte)
    {d : Word} (hd : d ≠ nwkRouteUnknown) :
    routeOf (t.remove dst multicast) d = mapStep t.routeOf (.duplicate dst multicast) d := by
  rw [mapStep, RouteTable.remove]
  split
  case h_1 i hfind =>
    rcases findEntry_some hfind with ⟨hi, hflag⟩
    rw [(h.entry i).multicast] at hflag
    have hfree := h.freeEntry i
    have hmulticast : multicast = 0 := hflag.symm
    rw [if_pos hmulticast, h.toConsistent.freeEntry_eq i]
    rw [h.toConsistent.freeEntry_eq i] at hfree
    exact h.toConsistent.routeOf_forget hfree.toConsistent hd hi rfl
  case h_2 hfind =>
    split
    case isTrue hmulticast =>
      rw [Function.update_apply]
      split
      case isTrue hdst =>
        rw [hdst]
        apply routeOf_none
        intro i
        apply findEntry_none hfind i
        rw [(h.entry i).multicast, hmulticast]
        rfl
      case isFalse => rfl
    case isFalse => rfl

/-- While a slot is unused, a frame that is heard changes no route but the one to its source. -/
theorem Sound.routeOf_frameReceived {t : RouteTable} (h : t.Sound) (addr : Word)
    (header : NwkFrameHeader) (lqi : Byte) {d : Word} (hd : d ≠ nwkRouteUnknown)
    (hroom : (∀ i, (t i).dstAddr ≠ header.nwkSrcAddr) → ∃ i, ¬ (t i).Used) :
    routeOf (t.frameReceived addr header lqi) d =
      mapStep t.routeOf (.received addr header lqi) d := by
  have hsound := h.frameReceived addr header lqi
  rcases h.toConsistent.frameReceived_cases addr header lqi with
    ⟨hignored, heq⟩ | ⟨hdirect, hpan, hwrite⟩
  · rw [heq, mapStep, if_pos hignored]
  · have hlearned : ¬ (¬ Direct header ∨ header.macDstPanId = nwkBroadcastPanId) := by
      rintro (hnot | heq)
      · exact hnot hdirect
      · exact hpan heq
    rw [mapStep, if_neg hlearned]
    rcases hwrite with ⟨i, hi, heq⟩ | ⟨i, hmin, hnone, heq⟩
    · rw [heq] at hsound ⊢
      rw [h.toConsistent.routeOf_rewrite hsound.toConsistent hd hi hi]
      by_cases hsrc : d = header.nwkSrcAddr
      · subst hsrc
        rw [Function.update_self, Function.update_self, h.toConsistent.routeOf_eq hd hi]
        rfl
      · rw [Function.update_of_ne hsrc, Function.update_of_ne hsrc]
    · rcases hroom hnone with ⟨j, hj⟩
      have hunused : ¬ (t i).Used := by
        have hij := hmin j
        rw [RouteEntry.Used] at hj ⊢
        omega
      have hslot : (t i).dstAddr ≠ d := by
        rw [(h.entry i).unused hunused]
        exact hd.symm
      rw [heq] at hsound ⊢
      rw [h.toConsistent.routeOf_update hsound.toConsistent hd, if_neg hslot]
      by_cases hsrc : header.nwkSrcAddr = d
      · subst hsrc
        rw [Function.update_self, routeOf_none hnone]
        exact if_pos rfl
      · rw [Function.update_of_ne (Ne.symm hsrc)]
        exact if_neg hsrc

/-! ### Runs -/

def sources (events : List Event) : List Word :=
  events.filterMap fun e =>
    match e with
    | .received _ header _ => some header.nwkSrcAddr
    | _ => none

def Heard (heard : List Word) (t : RouteTable) : Prop :=
  t.Sound ∧ ∀ i, (t i).Used → (t i).dstAddr ∈ heard

theorem used_update {t : RouteTable} {i j : RouteSlot} {e : RouteEntry}
    (he : e.Used → (t i).Used ∧ e.dstAddr = (t i).dstAddr)
    (hj : (Function.update t i e j).Used) :
    (t j).Used ∧ (Function.update t i e j).dstAddr = (t j).dstAddr := by
  by_cases hji : j = i
  · subst hji
    rw [Function.update_self] at hj ⊢
    exact he hj
  · rw [Function.update_of_ne hji] at hj ⊢
    exact ⟨hj, rfl⟩

theorem Sound.used_frameSent {t : RouteTable} (h : t.Sound) (header : NwkFrameHeader)
    (status : NwkStatus) {j : RouteSlot} (hj : (t.frameSent header status j).Used) :
    (t j).Used ∧ (t.frameSent header status j).dstAddr = (t j).dstAddr := by
  rcases h.frameSent_cases header status with ⟨heq, _⟩ | ⟨_, _, i, _, hused, heq⟩
  · rw [heq] at hj ⊢
    exact ⟨hj, rfl⟩
  · rw [heq] at hj ⊢
    split at hj
    case isTrue hsuccess =>
      rw [if_pos hsuccess]
      dsimp only at hj ⊢
      split at hj
      case isTrue hmax =>
        rw [used_normalizeRanks] at hj
        rw [if_pos hmax]
        exact used_update (fun _ => ⟨hused, rfl⟩) hj
      case isFalse hmax =>
        rw [if_neg hmax]
        exact used_update (fun _ => ⟨hused, rfl⟩) hj
    case isFalse hfailure =>
      rw [if_neg hfailure]
      apply used_update _ hj
      intro hu
      dsimp only at hu ⊢
      split at hu
      case isTrue => exact absurd hu (by simp [RouteEntry.Used])
      case isFalse hscore =>
        rw [if_neg hscore]
        exact ⟨hused, rfl⟩

theorem Sound.used_remove {t : RouteTable} (h : t.Sound) (dst : Word) (multicast : Byte)
    {j : RouteSlot} (hj : (t.remove dst multicast j).Used) :
    (t j).Used ∧ (t.remove dst multicast j).dstAddr = (t j).dstAddr := by
  cases hfind : t.findEntry dst multicast with
  | none =>
    simp only [RouteTable.remove, hfind] at hj ⊢
    exact ⟨hj, trivial⟩
  | some i =>
    simp only [RouteTable.remove, hfind, h.toConsistent.freeEntry_eq i] at hj ⊢
    apply used_update _ hj
    exact fun hu => absurd hu (by simp [RouteEntry.Used])

theorem Heard.step {heard : List Word} {t : RouteTable} (h : Heard heard t) (e : Event)
    (he : ∀ addr header lqi, e = .received addr header lqi → header.nwkSrcAddr ∈ heard) :
    Heard heard (t.step e) := by
  rcases h with ⟨hsound, hheard⟩
  have hkept {t' : RouteTable} {j : RouteSlot} (hj : (t j).Used ∧ (t' j).dstAddr = (t j).dstAddr) :
      (t' j).dstAddr ∈ heard := by
    rw [hj.2]
    exact hheard j hj.1
  refine ⟨hsound.step e, ?_⟩
  intro j hj
  cases e with
  | received addr header lqi =>
    have hsrc := he addr header lqi rfl
    simp only [RouteTable.step] at hj ⊢
    rcases hsound.toConsistent.frameReceived_cases addr header lqi with
      ⟨_, heq⟩ | ⟨_, _, ⟨i, hi, heq⟩ | ⟨i, _, _, heq⟩⟩
    · rw [heq] at hj ⊢
      exact hheard j hj
    · rw [heq] at hj ⊢
      exact hkept (used_update (fun hu => ⟨hu, rfl⟩) hj)
    · rw [heq] at hj ⊢
      by_cases hji : j = i
      · rw [hji, Function.update_self]
        exact hsrc
      · rw [Function.update_of_ne hji] at hj ⊢
        exact hheard j hj
  | sent header status => exact hkept (hsound.used_frameSent header status hj)
  | duplicate dst multicast => exact hkept (hsound.used_remove dst multicast hj)
  | error data =>
    simp only [RouteTable.step, errorReceived] at hj ⊢
    split at hj
    case isTrue hlength =>
      rw [if_pos hlength]
      exact hkept (hsound.used_remove _ _ hj)
    case isFalse hlength =>
      rw [if_neg hlength]
      exact hheard j hj

/-- There is an unused slot for a source that has none, as long as not more sources have been
heard than there are slots. -/
theorem Heard.room {heard : List Word} {t : RouteTable} (h : Heard heard t)
    (hroom : heard.dedup.length ≤ 30) {src : Word} (hsrc : src ∈ heard)
    (hnone : ∀ i, (t i).dstAddr ≠ src) : ∃ i, ¬ (t i).Used :=
  SlotTable.exists_unused h.1.unique h.2 hroom hsrc (fun i _ => hnone i)

theorem init_heard (heard : List Word) : Heard heard init :=
  ⟨init_sound, fun i hi => absurd hi (init_unused i)⟩

/-- The step of the map at an address looks at no other address than those the event names, and
not at the unknown one for another. -/
theorem mapStep_congr {m m' : RouteMap} (h : ∀ d, d ≠ nwkRouteUnknown → m d = m' d) (e : Event)
    {d : Word} (hd : d ≠ nwkRouteUnknown) : mapStep m e d = mapStep m' e d := by
  have hwrite (D : Word) (f : Option Route → Option Route) :
      Function.update m D (f (m D)) d = Function.update m' D (f (m' D)) d := by
    by_cases hD : d = D
    · subst hD
      rw [Function.update_self, Function.update_self, h d hd]
    · rw [Function.update_of_ne hD, Function.update_of_ne hD, h d hd]
  cases e with
  | received addr header lqi =>
    simp only [mapStep]
    split
    case isTrue => exact h d hd
    case isFalse => exact hwrite _ (fun r => some (learn addr header lqi r))
  | sent header status =>
    simp only [mapStep]
    split
    case isTrue => exact h d hd
    case isFalse => exact hwrite _ (fun r => r.bind (judge (status = .success)))
  | duplicate dst multicast =>
    simp only [mapStep]
    split
    case isTrue => exact hwrite _ (fun _ => none)
    case isFalse => exact h d hd
  | error data =>
    simp only [mapStep]
    split
    case isTrue => exact hwrite _ (fun _ => none)
    case isFalse => exact h d hd

theorem Heard.routeOf_step {heard : List Word} {t : RouteTable} (h : Heard heard t)
    (hroom : heard.dedup.length ≤ 30) (e : Event)
    (he : ∀ addr header lqi, e = .received addr header lqi → header.nwkSrcAddr ∈ heard) {d : Word}
    (hd : d ≠ nwkRouteUnknown) : routeOf (t.step e) d = mapStep t.routeOf e d := by
  cases e with
  | received addr header lqi =>
    exact h.1.routeOf_frameReceived addr header lqi hd (h.room hroom (he addr header lqi rfl))
  | sent header status => exact h.1.routeOf_frameSent header status hd
  | duplicate dst multicast => exact h.1.routeOf_remove dst multicast hd
  | error data =>
    simp only [RouteTable.step, errorReceived, mapStep]
    by_cases hlength : data.length = 6
    · rw [if_pos hlength, h.1.routeOf_remove _ _ hd, mapStep]
      simp only [hlength, true_and]
    · rw [if_neg hlength, if_neg (fun hboth => hlength hboth.1)]

theorem routeOf_run {heard : List Word} (hroom : heard.dedup.length ≤ 30) {t : RouteTable}
    (h : Heard heard t) {events : List Event} (hevents : sources events ⊆ heard) {m : RouteMap}
    (hm : ∀ d, d ≠ nwkRouteUnknown → t.routeOf d = m d) {d : Word} (hd : d ≠ nwkRouteUnknown) :
    routeOf (run step t events) d = run mapStep m events d := by
  induction events generalizing t m with
  | nil => exact hm d hd
  | cons e events ih =>
    have he (addr : Word) (header : NwkFrameHeader) (lqi : Byte)
        (heq : e = .received addr header lqi) : header.nwkSrcAddr ∈ heard := by
      subst heq
      exact hevents List.mem_cons_self
    apply ih (h.step e he)
    · intro d hd
      apply hevents
      cases e with
      | received addr header lqi => exact List.mem_cons_of_mem _ hd
      | sent header status => exact hd
      | duplicate dst multicast => exact hd
      | error data => exact hd
    · intro d hd
      rw [h.routeOf_step hroom e he hd]
      exact mapStep_congr hm e hd

/-- As long as no more sources have been heard than the table has slots, its routes are those of
a map without bounds. -/
theorem run_routeOf (events : List Event) (hroom : (sources events).dedup.length ≤ 30) {d : Word}
    (hd : d ≠ nwkRouteUnknown) :
    routeOf (run step init events) d = run mapStep (fun _ => none) events d := by
  apply routeOf_run hroom (init_heard _) (List.Subset.refl _) _ hd
  intro d hd
  apply routeOf_none
  exact fun _ => hd.symm

def exampleHeader (node : Word) : NwkFrameHeader :=
  { NwkFrameHeader.zero with macSrcAddr := node, nwkSrcAddr := node }

/-- Two nodes are heard, a frame to node 2 is lost, node 3 is dropped and node 2 is heard on
a better link. -/
def exampleRun : List Event :=
  [.received 1 (exampleHeader 2) 200, .received 1 (exampleHeader 3) 180,
    .sent { NwkFrameHeader.zero with nwkDstAddr := 2 } .noAck, .duplicate 3 0,
    .received 1 (exampleHeader 2) 220]

theorem exampleRun_routeOf :
    routeOf (run step init exampleRun) 2 = run mapStep (fun _ => none) exampleRun 2 ∧
      routeOf (run step init exampleRun) 3 = run mapStep (fun _ => none) exampleRun 3 :=
  ⟨run_routeOf exampleRun (by decide) (by decide),
    run_routeOf exampleRun (by decide) (by decide)⟩

example : routeOf (run step init exampleRun) 2 = some ⟨2, 2, 220⟩ := by decide

/-- A frame that is heard takes the route to another node away only when every slot is used, and
then only one of the smallest rank. -/
theorem run_evicted (events : List Event) (addr : Word) (header : NwkFrameHeader) (lqi : Byte)
    {d : Word} (hd : d ≠ nwkRouteUnknown) (hsrc : d ≠ header.nwkSrcAddr)
    (hchange : routeOf ((run step init events).frameReceived addr header lqi) d ≠
      routeOf (run step init events) d) :
    (∀ i, (run step init events i).Used) ∧
      (∃ i, (run step init events i).dstAddr = d ∧
        ∀ j, (run step init events i).rank.toNat ≤ (run step init events j).rank.toNat) ∧
      routeOf ((run step init events).frameReceived addr header lqi) d = none := by
  have h := run_sound events
  have hsound := h.frameReceived addr header lqi
  generalize run step init events = t at h hsound hchange ⊢
  rcases h.toConsistent.frameReceived_cases addr header lqi with
    ⟨_, heq⟩ | ⟨_, _, ⟨i, hi, heq⟩ | ⟨i, hmin, _, heq⟩⟩
  · rw [heq] at hchange
    exact absurd rfl hchange
  · rw [heq] at hchange hsound
    rw [h.toConsistent.routeOf_rewrite hsound.toConsistent hd hi hi,
      Function.update_of_ne hsrc] at hchange
    exact absurd rfl hchange
  · rw [heq] at hchange hsound ⊢
    have hroute := h.toConsistent.routeOf_update hsound.toConsistent hd
    have hother : ¬ (learned header lqi).dstAddr = d := fun heq => hsrc heq.symm
    rw [hroute, if_neg hother] at hchange ⊢
    by_cases hslot : (t i).dstAddr = d
    · rw [if_pos hslot]
      refine ⟨?_, ⟨i, hslot, hmin⟩, rfl⟩
      intro j
      have hused := h.used (hslot.trans_ne hd)
      have hij := hmin j
      rw [RouteEntry.Used] at hused ⊢
      omega
    · rw [if_neg hslot] at hchange
      exact absurd rfl hchange

def exampleCrowd : List Event :=
  (List.range 30).map fun n => .received 100 (exampleHeader (BitVec.ofNat 16 n)) 200

theorem exampleCrowd_evicted :
    (∀ i, (run step init exampleCrowd i).Used) ∧
      (∃ i, (run step init exampleCrowd i).dstAddr = 0 ∧ ∀ j,
        (run step init exampleCrowd i).rank.toNat ≤ (run step init exampleCrowd j).rank.toNat) ∧
      routeOf ((run step init exampleCrowd).frameReceived 100 (exampleHeader 30) 200) 0 = none :=
  run_evicted exampleCrowd 100 (exampleHeader 30) 200 (by decide) (by decide) (by decide +kernel)

/-! ### Failures in a row -/

abbrev Send := NwkFrameHeader × NwkStatus

def send (t : RouteTable) (s : Send) : RouteTable := t.frameSent s.1 s.2

def outcomes (d : Word) (sends : List Send) : List Bool :=
  (sends.filter fun s => s.1.nwkDstAddr = d && !s.1.multicast).map fun s => s.2 = .success

theorem Sound.routeOf_sends {t : RouteTable} (h : t.Sound) (sends : List Send) {d : Word}
    (hd : d ≠ nwkRouteUnknown) :
    routeOf (run send t sends) d =
      (outcomes d sends).foldl (fun r ok => r.bind (judge (ok = true))) (t.routeOf d) := by
  induction sends generalizing t with
  | nil => rfl
  | cons s sends ih =>
    have hsend : (t.send s).Sound := h.frameSent s.1 s.2
    rw [run_cons, ih hsend, send, h.routeOf_frameSent s.1 s.2 hd, mapStep]
    by_cases hm : s.1.multicast = true
    · rw [if_pos hm]
      simp [outcomes, hm]
    · rw [if_neg hm, Function.update_apply]
      by_cases hdst : s.1.nwkDstAddr = d
      · subst hdst
        simp [outcomes, hm]
      · rw [if_neg (Ne.symm hdst)]
        simp [outcomes, hdst]

/-- The score of a route counts the failures in a row that are left to it. -/
theorem score_judge {r : Route} (hpos : 0 < r.score.toNat) (ok : Bool) :
    (judge (ok = true) r).map (fun r => r.score.toNat) =
      Countdown.count 3 (some r.score.toNat) ok := by
  cases ok with
  | true => rfl
  | false =>
    have hpred : (r.score - 1).toNat = r.score.toNat - 1 := by
      rw [BitVec.toNat_sub_of_le]
      · rfl
      · rw [BitVec.le_def]
        exact hpos
    have hlast : r.score - 1 = 0 ↔ r.score.toNat = 1 := by
      rw [← BitVec.toNat_inj, hpred]
      change r.score.toNat - 1 = 0 ↔ _
      omega
    rw [judge, if_neg Bool.false_ne_true, Countdown.count]
    by_cases h : r.score.toNat = 1
    · rw [if_pos (hlast.mpr h), if_pos h]
      rfl
    · rw [if_neg (fun hzero => h (hlast.mp hzero)), if_neg h, Option.map_some, hpred]

theorem score_foldl_judge {r : Option Route} (hpos : ∀ x, r = some x → 0 < x.score.toNat)
    (results : List Bool) :
    (results.foldl (fun r ok => r.bind (judge (ok = true))) r).map (fun r => r.score.toNat) =
      results.foldl (Countdown.count 3) (r.map fun r => r.score.toNat) := by
  induction results generalizing r with
  | nil => rfl
  | cons ok results ih =>
    rw [List.foldl_cons, List.foldl_cons, ih]
    · cases r with
      | none => rfl
      | some x => rw [Option.bind_some, score_judge (hpos x rfl) ok, Option.map_some]
    · intro y hy
      cases r with
      | none => cases hy
      | some x =>
        rw [Option.bind_some] at hy
        have hx := hpos x rfl
        rw [judge] at hy
        split at hy
        case isTrue =>
          cases hy
          exact Nat.zero_lt_succ 2
        case isFalse =>
          split at hy
          case isTrue => cases hy
          case isFalse hne =>
            cases hy
            apply Nat.pos_of_ne_zero
            exact fun hzero => hne (BitVec.eq_of_toNat_eq hzero)

/-- A route that has just been learned or confirmed is lost exactly by three failures in a row,
whatever is sent to other destinations in between. -/
theorem route_lost_iff (events : List Event) {d : Word} (hd : d ≠ nwkRouteUnknown) {r : Route}
    (hroute : routeOf (run step init events) d = some r) (hscore : r.score = nwkRouteDefaultScore)
    (sends : List Send) :
    routeOf (run send (run step init events) sends) d = none ↔
      List.replicate 3 false <:+: outcomes d sends := by
  have hpos (x : Route) (hx : some r = some x) : 0 < x.score.toNat := by
    cases hx
    rw [hscore]
    decide
  have hlost := Countdown.foldl_count_eq_none_iff (N := 3) (by decide) (Nat.le_refl 3)
    (outcomes d sends)
  rw [Nat.sub_self, List.replicate_zero, List.nil_append] at hlost
  rw [(run_sound events).routeOf_sends sends hd, hroute, ← hlost, ← Option.map_eq_none_iff,
    score_foldl_judge hpos, Option.map_some, hscore]
  rfl

def exampleSends : List Send :=
  [({ NwkFrameHeader.zero with nwkDstAddr := 2 }, .noAck),
    ({ NwkFrameHeader.zero with nwkDstAddr := 3 }, .success),
    ({ NwkFrameHeader.zero with nwkDstAddr := 2 }, .phyNoAck),
    ({ NwkFrameHeader.zero with nwkDstAddr := 2 }, .noAck)]

theorem exampleSends_lost_iff :
    routeOf (run send (run step init [.received 1 (exampleHeader 2) 200]) exampleSends) 2 = none ↔
      List.replicate 3 false <:+: outcomes 2 exampleSends :=
  route_lost_iff [.received 1 (exampleHeader 2) 200] (by decide) (r := ⟨2, 3, 200⟩) (by decide)
    (by decide) exampleSends

end RouteTable

end Aquila.Lwm
