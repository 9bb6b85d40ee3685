import NostrPubsub.Core
import NostrPubsub.ToMathlib.Fifo

/-!
# Provider behaviour

`ProviderBehavior` (`nostr-pubsub-fips/src/provider_behavior.rs`): scores of the peers that broke the
rules, and until when a peer with a high score is left alone. A score decays in whole steps, and
every query of it takes the steps that are due. Decay over two spans is decay over both
(`ProviderState.decay_decay`), so that a query changes nothing that can be seen later.

The table is bounded; its oldest entry makes room for a new one, however recent its deadline is.
-/

namespace NostrPubsub.Fips

/-- `SCORE_DECAY_INTERVAL_MS`. -/
def scoreDecayIntervalMs : ℕ := 30000

/-- `DISCONNECT_SCORE`. -/
def disconnectScore : ℕ := 12

/-- `RECONNECT_COOLDOWN_MS`. -/
def reconnectCooldownMs : ℕ := 60000

/-- `UNIQUE_FILTER_MISMATCH_GRACE`. -/
def uniqueFilterMismatchGrace : ℕ := 3

/-- `MAX_TRACKED_PROVIDERS`. -/
def maxTrackedProviders : ℕ := 1024

/-- `ProviderViolation`. -/
inductive ProviderViolation where
  | malformedFrame
  | unansweredInventory
  | outOfFilterEvent (repeated : Bool)
  deriving DecidableEq, Repr

/-- `ProviderState`. -/
@[ext]
structure ProviderState where
  score : ℕ := 0
  uniqueFilterMismatches : ℕ := 0
  updatedAtMs : ℕ := 0
  cooldownUntilMs : ℕ := 0
  deriving DecidableEq, Repr

namespace ProviderState

/-- `decay`. -/
def decay (state : ProviderState) (nowMs : ℕ) : ProviderState :=
  if state.updatedAtMs = 0 then { state with updatedAtMs := nowMs }
  else
    let steps := (nowMs - state.updatedAtMs) / scoreDecayIntervalMs
    if steps = 0 then state
    else
      let steps := min steps u32Max
      { state with
        score := state.score - steps
        uniqueFilterMismatches := state.uniqueFilterMismatches - steps
        updatedAtMs := satAdd state.updatedAtMs (satMul steps scoreDecayIntervalMs) }

/-- The points of a violation; a mismatch is counted, and tolerated a few times. -/
def points (state : ProviderState) : ProviderViolation → ℕ × ProviderState
  | .malformedFrame => (4, state)
  | .unansweredInventory => (2, state)
  | .outOfFilterEvent true => (1, state)
  | .outOfFilterEvent false =>
    let mismatches := min (state.uniqueFilterMismatches + 1) u32Max
    (if uniqueFilterMismatchGrace < mismatches then 1 else 0,
      { state with uniqueFilterMismatches := mismatches })

/-- The part of `record` after the decay: the points of a violation are added, and the score may
reach the threshold. -/
def charge (state : ProviderState) (violation : ProviderViolation) (nowMs : ℕ) :
    Option ℕ × ProviderState :=
  let (points, state) := state.points violation
  let state := { state with score := min (state.score + points) u32Max }
  if state.score < disconnectScore ∨ nowMs < state.cooldownUntilMs then (none, state)
  else
    let deadline := satAdd nowMs reconnectCooldownMs
    (some deadline, { state with cooldownUntilMs := deadline })

/-! ### Decay -/

/-- The state was brought up to date between two instants. -/
structure Within (first last : ℕ) (state : ProviderState) : Prop where
  le_updated : first ≤ state.updatedAtMs
  updated_le : state.updatedAtMs ≤ last

/-- An instant of a run that started at `first`. -/
structure InRun (first nowMs : ℕ) : Prop where
  positive : 0 < first
  le_max : nowMs ≤ u64Max
  lt_span : nowMs < first + 2 ^ 32 * scoreDecayIntervalMs

variable {first : ℕ} {state : ProviderState}

/-- Within a run nothing saturates: every whole step is taken. -/
theorem decay_eq {nowMs : ℕ} (hrun : InRun first nowMs) (h : state.Within first nowMs) :
    state.decay nowMs =
      let steps := (nowMs - state.updatedAtMs) / scoreDecayIntervalMs
      { state with
        score := state.score - steps
        uniqueFilterMismatches := state.uniqueFilterMismatches - steps
        updatedAtMs := state.updatedAtMs + steps * scoreDecayIntervalMs } := by
  obtain ⟨hpositive, hmax, hspan⟩ := hrun
  obtain ⟨hfirst, hnow⟩ := h
  have hne : state.updatedAtMs ≠ 0 := by omega
  rw [decay, if_neg hne]
  set steps := (nowMs - state.updatedAtMs) / scoreDecayIntervalMs with hsteps
  have hmul : steps * scoreDecayIntervalMs ≤ nowMs - state.updatedAtMs := Nat.div_mul_le_self _ _
  have hlt : steps < 2 ^ 32 := by
    refine Nat.div_lt_of_lt_mul ?_
    rw [Nat.mul_comm]
    omega
  dsimp only
  split
  · next hzero => simp [hzero]
  · have hmin : min steps u32Max = steps := min_eq_left (by rw [u32Max]; omega)
    have hproduct : satMul steps scoreDecayIntervalMs = steps * scoreDecayIntervalMs :=
      min_eq_left (by omega)
    have hsum : satAdd state.updatedAtMs (steps * scoreDecayIntervalMs) =
        state.updatedAtMs + steps * scoreDecayIntervalMs := min_eq_left (by omega)
    rw [hmin, hproduct, hsum]

theorem within_decay {nowMs : ℕ} (hrun : InRun first nowMs) (h : state.Within first nowMs) :
    (state.decay nowMs).Within first nowMs := by
  have hmul : (nowMs - state.updatedAtMs) / scoreDecayIntervalMs * scoreDecayIntervalMs ≤
      nowMs - state.updatedAtMs := Nat.div_mul_le_self _ _
  obtain ⟨hfirst, hnow⟩ := h
  rw [decay_eq hrun ⟨hfirst, hnow⟩]
  exact ⟨hfirst.trans (Nat.le_add_right _ _), by dsimp only; omega⟩

/-- A new state is brought up to date at once. -/
theorem within_decay_new {nowMs : ℕ} (h : first ≤ nowMs) :
    (({} : ProviderState).decay nowMs).Within first nowMs :=
  ⟨h, le_rfl⟩

theorem Within.mono {last last' : ℕ} (h : state.Within first last) (hle : last ≤ last') :
    state.Within first last' :=
  ⟨h.le_updated, h.updated_le.trans hle⟩

/-- Decay to an instant on the way makes no difference. -/
theorem decay_decay {nowMs laterMs : ℕ} (hrun : InRun first laterMs) (hle : nowMs ≤ laterMs)
    (h : state.Within first nowMs) : (state.decay nowMs).decay laterMs = state.decay laterMs := by
  have hnow : InRun first nowMs :=
    ⟨hrun.positive, hle.trans hrun.le_max, hle.trans_lt hrun.lt_span⟩
  rw [decay_eq hrun ((within_decay hnow h).mono hle), decay_eq hrun (h.mono hle), decay_eq hnow h]
  dsimp only
  -- the steps to the instant on the way are whole, so that the others are those that are left
  set steps := (nowMs - state.updatedAtMs) / scoreDecayIntervalMs with hsteps
  have hmul : steps * scoreDecayIntervalMs ≤ nowMs - state.updatedAtMs := Nat.div_mul_le_self _ _
  have hrest : (laterMs - (state.updatedAtMs + steps * scoreDecayIntervalMs)) / scoreDecayIntervalMs =
      (laterMs - state.updatedAtMs) / scoreDecayIntervalMs - steps := by
    rw [Nat.sub_add_eq, Nat.mul_comm, Nat.sub_mul_div]
  have hsplit : steps ≤ (laterMs - state.updatedAtMs) / scoreDecayIntervalMs :=
    Nat.div_le_div_right (by omega)
  rw [hrest]
  set all := (laterMs - state.updatedAtMs) / scoreDecayIntervalMs with hall
  have hupdated : state.updatedAtMs + steps * scoreDecayIntervalMs +
      (all - steps) * scoreDecayIntervalMs = state.updatedAtMs + all * scoreDecayIntervalMs := by
    rw [Nat.add_assoc, ← Nat.add_mul, Nat.add_sub_cancel' hsplit]
  ext
  · show state.score - steps - (all - steps) = state.score - all
    omega
  · show state.uniqueFilterMismatches - steps - (all - steps) = state.uniqueFilterMismatches - all
    omega
  · exact hupdated
  · rfl

@[simp]
theorem decay_cooldownUntilMs (state : ProviderState) (nowMs : ℕ) :
    (state.decay nowMs).cooldownUntilMs = state.cooldownUntilMs := by
  unfold decay
  dsimp only
  split_ifs <;> rfl

/-! ### States that no later instant can tell apart -/

/-- Decay to any later instant makes them the same. -/
structure Agree (first nowMs : ℕ) (state state' : ProviderState) : Prop where
  left : state.Within first nowMs
  right : state'.Within first nowMs
  decay : ∀ laterMs, nowMs ≤ laterMs → InRun first laterMs →
    state.decay laterMs = state'.decay laterMs

variable {nowMs laterMs : ℕ} {state' : ProviderState}

theorem Agree.refl (h : state.Within first nowMs) : Agree first nowMs state state :=
  ⟨h, h, fun _ _ _ => rfl⟩

theorem Agree.mono (h : Agree first nowMs state state') (hle : nowMs ≤ laterMs) :
    Agree first laterMs state state' :=
  ⟨h.left.mono hle, h.right.mono hle, fun _ hlater => h.decay _ (hle.trans hlater)⟩

/-- A poll of one of them is not seen later. -/
theorem Agree.decay_left (h : Agree first nowMs state state') (hrun : InRun first nowMs) :
    Agree first nowMs (state.decay nowMs) state' :=
  ⟨within_decay hrun h.left, h.right, fun _ hle hlater =>
    (decay_decay hlater hle h.left).trans (h.decay _ hle hlater)⟩

/-! ### Charges -/

theorem points_snd (state : ProviderState) (violation : ProviderViolation) :
    (state.points violation).2.updatedAtMs = state.updatedAtMs ∧
      (state.points violation).2.cooldownUntilMs = state.cooldownUntilMs ∧
      (state.points violation).2.score = state.score := by
  rcases violation with _ | _ | (_ | _) <;> exact ⟨rfl, rfl, rfl⟩

theorem points_fst_le (state : ProviderState) (violation : ProviderViolation) :
    (state.points violation).1 ≤ 4 := by
  rcases violation with _ | _ | (_ | _)
  · exact le_rfl
  · show 2 ≤ 4
    omega
  · show (if _ then 1 else 0) ≤ 4
    split <;> omega
  · show 1 ≤ 4
    omega

theorem charge_updatedAtMs (state : ProviderState) (violation : ProviderViolation) (nowMs : ℕ) :
    (state.charge violation nowMs).2.updatedAtMs = state.updatedAtMs := by
  rw [← (state.points_snd violation).1, charge]
  dsimp only
  split <;> rfl

/-- A charge without a deadline leaves the one that is there, and one with a deadline sets it. -/
theorem charge_cooldownUntilMs (state : ProviderState) (violation : ProviderViolation) (nowMs : ℕ) :
    (state.charge violation nowMs).2.cooldownUntilMs =
      (state.charge violation nowMs).1.getD state.cooldownUntilMs := by
  rw [← (state.points_snd violation).2.1, charge]
  dsimp only
  split
  · exact (Option.getD_none ..).symm
  · exact (Option.getD_some ..).symm

/-- A single violation does not reach the threshold. -/
theorem charge_fst_of_score {state : ProviderState} (violation : ProviderViolation) (nowMs : ℕ)
    (hscore : state.score + 4 < disconnectScore) : (state.charge violation nowMs).1 = none := by
  have hpoints := state.points_fst_le violation
  have hsame := (state.points_snd violation).2.2
  have hbelow : min ((state.points violation).2.score + (state.points violation).1) u32Max <
      disconnectScore := by omega
  rw [charge]
  dsimp only
  rw [if_pos (.inl hbelow)]

end ProviderState

/-- `ProviderBehavior`. -/
structure ProviderBehavior where
  peers : Table ProviderState := ∅
  order : List String := []

namespace ProviderBehavior

/-- A place for a peer: the oldest entries make room for one that is not there. -/
def makeRoom (behavior : ProviderBehavior) (peerNpub : String) : ProviderBehavior :=
  if peerNpub ∈ behavior.peers then behavior
  else
    let (order, peers) := evictOldest maxTrackedProviders behavior.order behavior.peers
    { peers, order := order ++ [peerNpub] }

/-- `ProviderBehavior::record`. -/
def record (behavior : ProviderBehavior) (peerNpub : String) (violation : ProviderViolation)
    (nowMs : ℕ) : Option ℕ × ProviderBehavior :=
  let behavior := behavior.makeRoom peerNpub
  let state := (behavior.peers.lookup peerNpub).getD {}
  let (deadline, state) := (state.decay nowMs).charge violation nowMs
  (deadline, { behavior with peers := behavior.peers.insert peerNpub state })

/-- `ProviderBehavior::is_in_cooldown`. -/
def isInCooldown (behavior : ProviderBehavior) (peerNpub : String) (nowMs : ℕ) :
    Bool × ProviderBehavior :=
  match behavior.peers.lookup peerNpub with
  | none => (false, behavior)
  | some state =>
    let state := state.decay nowMs
    (nowMs < state.cooldownUntilMs, { behavior with peers := behavior.peers.insert peerNpub state })

/-! ## Runs -/

/-- A call. -/
inductive Op where
  | record (peerNpub : String) (violation : ProviderViolation) (nowMs : ℕ)
  | isInCooldown (peerNpub : String) (nowMs : ℕ)
  deriving DecidableEq, Repr

/-- The clock of a call. -/
def Op.nowMs : Op → ℕ
  | .record _ _ nowMs => nowMs
  | .isInCooldown _ nowMs => nowMs

/-- What a call returns. -/
inductive Answer where
  | deadline (deadline : Option ℕ)
  | inCooldown (inCooldown : Bool)
  deriving DecidableEq, Repr

def step (behavior : ProviderBehavior) : Op → Answer × ProviderBehavior
  | .record peer violation nowMs =>
    let (deadline, behavior) := behavior.record peer violation nowMs
    (.deadline deadline, behavior)
  | .isInCooldown peer nowMs =>
    let (inCooldown, behavior) := behavior.isInCooldown peer nowMs
    (.inCooldown inCooldown, behavior)

/-- A table after some calls. -/
def runFrom (behavior : ProviderBehavior) (ops : List Op) : ProviderBehavior :=
  ops.foldl (fun behavior op => (behavior.step op).2) behavior

/-- A new table after some calls. -/
def run (ops : List Op) : ProviderBehavior := runFrom {} ops

/-- What the calls of a run return, but for those that are marked. -/
def answers (behavior : ProviderBehavior) : List (Bool × Op) → List Answer
  | [] => []
  | (marked, op) :: calls =>
    let (answer, behavior) := behavior.step op
    if marked then behavior.answers calls else answer :: behavior.answers calls

/-- The clock is positive, does not go back, and runs for less than 2^32 decay intervals. -/
structure Clocked (ops : List Op) : Prop where
  ordered : ops.Pairwise fun a b => a.nowMs ≤ b.nowMs
  positive : ∀ op ∈ ops, 0 < op.nowMs ∧ op.nowMs ≤ u64Max
  span : ∀ a ∈ ops, ∀ b ∈ ops, b.nowMs < a.nowMs + 2 ^ 32 * scoreDecayIntervalMs

/-- The call records a peer that has no entry. -/
def Op.isFirstRecord (behavior : ProviderBehavior) : Op → Bool
  | .record peer _ _ => peer ∉ behavior.peers
  | .isInCooldown _ _ => false

/-- How many calls record a peer that has no entry. -/
def firstRecords (behavior : ProviderBehavior) : List Op → ℕ
  | [] => 0
  | op :: ops =>
    (if op.isFirstRecord behavior then 1 else 0) + (behavior.step op).2.firstRecords ops

theorem step_record (behavior : ProviderBehavior) (peer : String) (violation : ProviderViolation)
    (nowMs : ℕ) :
    (behavior.step (.record peer violation nowMs)).2 = (behavior.record peer violation nowMs).2 :=
  rfl

theorem run_concat (ops : List Op) (op : Op) : run (ops ++ [op]) = ((run ops).step op).2 := by
  rw [run, runFrom, List.foldl_append]
  rfl

theorem run_append (ops more : List Op) :
    run (ops ++ more) = (run ops).runFrom more :=
  List.foldl_append

theorem firstRecords_append (behavior : ProviderBehavior) (ops more : List Op) :
    behavior.firstRecords (ops ++ more) = behavior.firstRecords ops +
      (behavior.runFrom ops).firstRecords more := by
  induction ops generalizing behavior with
  | nil => exact (Nat.zero_add _).symm
  | cons op ops ih => rw [List.cons_append, firstRecords, firstRecords, ih, Nat.add_assoc]; rfl

/-! ## The order of the table -/

/-- The order lists the peers of the table, which fit. -/
structure Ordered (behavior : ProviderBehavior) : Prop where
  enumerates : Enumerates behavior.order behavior.peers
  size_le : behavior.peers.size ≤ maxTrackedProviders

variable {behavior : ProviderBehavior} {peer : String}

theorem Ordered.record (h : Ordered behavior) (peer : String) (violation : ProviderViolation) (nowMs : ℕ) :
    Ordered (behavior.record peer violation nowMs).2 := by
  by_cases hmem : peer ∈ behavior.peers
  · have hsame : behavior.makeRoom peer = behavior := if_pos hmem
    rw [ProviderBehavior.record, hsame]
    refine ⟨h.enumerates.replace hmem _, ?_⟩
    show (behavior.peers.insert peer _).size ≤ _
    rw [Finmap.size_insert_of_mem hmem]
    exact h.size_le
  · have hroom : behavior.makeRoom peer =
        { peers := (evictOldest maxTrackedProviders behavior.order behavior.peers).2
          order := (evictOldest maxTrackedProviders behavior.order behavior.peers).1 ++ [peer] } :=
      if_neg hmem
    rw [ProviderBehavior.record, hroom]
    have hpush := fun state : ProviderState =>
      h.enumerates.evict_push (show 0 < maxTrackedProviders by decide) hmem state
    exact ⟨(hpush _).1, (hpush _).2⟩

theorem Ordered.isInCooldown (h : Ordered behavior) (nowMs : ℕ) :
    Ordered (behavior.isInCooldown peer nowMs).2 := by
  rw [ProviderBehavior.isInCooldown]
  cases hlookup : behavior.peers.lookup peer with
  | none => exact h
  | some state =>
    have hmem := Finmap.mem_of_lookup_eq_some hlookup
    refine ⟨h.enumerates.replace hmem _, ?_⟩
    show (behavior.peers.insert peer _).size ≤ _
    rw [Finmap.size_insert_of_mem hmem]
    exact h.size_le

theorem Ordered.step (h : Ordered behavior) (op : Op) : Ordered (behavior.step op).2 := by
  cases op with
  | record peer violation nowMs => exact h.record peer violation nowMs
  | isInCooldown peer nowMs => exact h.isInCooldown nowMs

theorem ordered_runFrom (h : Ordered behavior) (ops : List Op) :
    Ordered (behavior.runFrom ops) := by
  induction ops generalizing behavior with
  | nil => exact h
  | cons op ops ih => exact ih (h.step op)

theorem ordered_run (ops : List Op) : Ordered (run ops) :=
  ordered_runFrom ⟨.empty, Nat.zero_le _⟩ ops

/-! ## Polls -/

/-- Two tables that no later call can tell apart. -/
structure Agree (first nowMs : ℕ) (behavior behavior' : ProviderBehavior) : Prop where
  order : behavior.order = behavior'.order
  peers : ∀ peer, Option.Rel (ProviderState.Agree first nowMs) (behavior.peers.lookup peer)
    (behavior'.peers.lookup peer)

section Agree

variable {first nowMs laterMs : ℕ} {behavior' : ProviderBehavior}

theorem Agree.mono (h : Agree first nowMs behavior behavior') (hle : nowMs ≤ laterMs) :
    Agree first laterMs behavior behavior' := by
  refine ⟨h.order, fun peer => ?_⟩
  have hpeer := h.peers peer
  generalize behavior.peers.lookup peer = found, behavior'.peers.lookup peer = found' at hpeer ⊢
  cases hpeer with
  | none => exact .none
  | some hagree => exact .some (hagree.mono hle)

theorem Agree.mem_iff (h : Agree first nowMs behavior behavior') (peer : String) :
    peer ∈ behavior.peers ↔ peer ∈ behavior'.peers := by
  have hpeer := h.peers peer
  rw [← Finmap.lookup_isSome, ← Finmap.lookup_isSome]
  generalize behavior.peers.lookup peer = found, behavior'.peers.lookup peer = found' at hpeer ⊢
  cases hpeer with
  | none => rfl
  | some => rfl

theorem Agree.makeRoom (h : Agree first nowMs behavior behavior') (peer : String) :
    Agree first nowMs (behavior.makeRoom peer) (behavior'.makeRoom peer) := by
  by_cases hmem : peer ∈ behavior.peers
  · rw [ProviderBehavior.makeRoom, if_pos hmem, ProviderBehavior.makeRoom,
      if_pos ((h.mem_iff peer).mp hmem)]
    exact h
  · rw [ProviderBehavior.makeRoom, if_neg hmem, ProviderBehavior.makeRoom,
      if_neg (mt (h.mem_iff peer).mpr hmem), h.order]
    have hevict := evictOldest_rel maxTrackedProviders behavior'.order h.peers
    refine ⟨?_, hevict.2⟩
    show (evictOldest _ _ _).1 ++ [peer] = (evictOldest _ _ _).1 ++ [peer]
    rw [hevict.1]

/-- Both entries of a peer are set. -/
theorem Agree.insert (h : Agree first nowMs behavior behavior') (peer : String)
    {state state' : ProviderState} (hstate : ProviderState.Agree first nowMs state state') :
    Agree first nowMs { behavior with peers := behavior.peers.insert peer state }
      { behavior' with peers := behavior'.peers.insert peer state' } := by
  refine ⟨h.order, fun other => ?_⟩
  by_cases hother : other = peer
  · subst hother
    rw [Finmap.lookup_insert, Finmap.lookup_insert]
    exact .some hstate
  · rw [Finmap.lookup_insert_of_ne _ hother, Finmap.lookup_insert_of_ne _ hother]
    exact h.peers other

/-- Only the first entry of a peer is set. -/
theorem Agree.insert_left (h : Agree first nowMs behavior behavior') {peer : String}
    {state state' : ProviderState} (hlookup : behavior'.peers.lookup peer = some state')
    (hstate : ProviderState.Agree first nowMs state state') :
    Agree first nowMs { behavior with peers := behavior.peers.insert peer state } behavior' := by
  refine ⟨h.order, fun other => ?_⟩
  by_cases hother : other = peer
  · subst hother
    rw [Finmap.lookup_insert, hlookup]
    exact .some hstate
  · rw [Finmap.lookup_insert_of_ne _ hother]
    exact h.peers other

/-- After the decay of a call both entries of its peer are the same. -/
theorem Agree.decay_eq (h : Agree first nowMs behavior behavior') (hrun : ProviderState.InRun first nowMs)
    (hfirst : first ≤ nowMs) (peer : String) :
    ∃ state : ProviderState, state.Within first nowMs ∧
      ((behavior.peers.lookup peer).getD {}).decay nowMs = state ∧
      ((behavior'.peers.lookup peer).getD {}).decay nowMs = state := by
  have hpeer := h.peers peer
  generalize behavior.peers.lookup peer = found, behavior'.peers.lookup peer = found' at hpeer ⊢
  cases hpeer with
  | none => exact ⟨_, ProviderState.within_decay_new hfirst, rfl, rfl⟩
  | some hagree =>
    exact ⟨_, ProviderState.within_decay hrun hagree.left, rfl, (hagree.decay _ le_rfl hrun).symm⟩

/-- The same record on both sides: one answer, and no difference later. -/
theorem Agree.record (h : Agree first nowMs behavior behavior')
    (hrun : ProviderState.InRun first nowMs) (hfirst : first ≤ nowMs) (peer : String)
    (violation : ProviderViolation) :
    (behavior.record peer violation nowMs).1 = (behavior'.record peer violation nowMs).1 ∧
      Agree first nowMs (behavior.record peer violation nowMs).2
        (behavior'.record peer violation nowMs).2 := by
  have hroom := h.makeRoom peer
  obtain ⟨state, hwithin, hleft, hright⟩ := hroom.decay_eq hrun hfirst peer
  rw [ProviderBehavior.record, ProviderBehavior.record]
  dsimp only
  rw [hleft, hright]
  refine ⟨rfl, hroom.insert peer (.refl ⟨?_, ?_⟩)⟩
  · rw [ProviderState.charge_updatedAtMs]
    exact hwithin.le_updated
  · rw [ProviderState.charge_updatedAtMs]
    exact hwithin.updated_le

/-- The same poll on both sides. -/
theorem Agree.isInCooldown (h : Agree first nowMs behavior behavior')
    (hrun : ProviderState.InRun first nowMs) (peer : String) :
    (behavior.isInCooldown peer nowMs).1 = (behavior'.isInCooldown peer nowMs).1 ∧
      Agree first nowMs (behavior.isInCooldown peer nowMs).2
        (behavior'.isInCooldown peer nowMs).2 := by
  have hpeer := h.peers peer
  rw [ProviderBehavior.isInCooldown, ProviderBehavior.isInCooldown]
  generalize behavior.peers.lookup peer = found, behavior'.peers.lookup peer = found' at hpeer ⊢
  cases hpeer with
  | none => exact ⟨rfl, h⟩
  | some hagree =>
    dsimp only
    rw [hagree.decay _ le_rfl hrun]
    exact ⟨rfl, h.insert peer (.refl (ProviderState.within_decay hrun hagree.right))⟩

/-- A poll on one side only. -/
theorem Agree.poll_left (h : Agree first nowMs behavior behavior')
    (hrun : ProviderState.InRun first nowMs) (peer : String) :
    Agree first nowMs (behavior.isInCooldown peer nowMs).2 behavior' := by
  have hpeer := h.peers peer
  rw [ProviderBehavior.isInCooldown]
  cases hleft : behavior.peers.lookup peer with
  | none => exact h
  | some state =>
    cases hright : behavior'.peers.lookup peer with
    | none =>
      rw [hleft, hright] at hpeer
      nomatch hpeer
    | some state' =>
      rw [hleft, hright] at hpeer
      cases hpeer with
      | some hagree => exact h.insert_left hright (hagree.decay_left hrun)

theorem Agree.step (h : Agree first nowMs behavior behavior') {op : Op} (hle : nowMs ≤ op.nowMs)
    (hrun : ProviderState.InRun first op.nowMs) (hfirst : first ≤ op.nowMs) :
    (behavior.step op).1 = (behavior'.step op).1 ∧
      Agree first op.nowMs (behavior.step op).2 (behavior'.step op).2 := by
  cases op with
  | record peer violation at_ =>
    obtain ⟨hanswer, hagree⟩ := (h.mono hle).record hrun hfirst peer violation
    exact ⟨congrArg Answer.deadline hanswer, hagree⟩
  | isInCooldown peer at_ =>
    obtain ⟨hanswer, hagree⟩ := (h.mono hle).isInCooldown hrun peer
    exact ⟨congrArg Answer.inCooldown hanswer, hagree⟩

/-- From tables that no later call can tell apart, the calls that are not marked have the same
answers with and without those that are. -/
theorem Agree.answers (h : Agree first nowMs behavior behavior') {calls : List (Bool × Op)}
    (hpolls : ∀ op, (true, op) ∈ calls → ∃ peer at_, op = .isInCooldown peer at_)
    (hordered : (calls.map Prod.snd).Pairwise fun a b => a.nowMs ≤ b.nowMs)
    (hlater : ∀ call ∈ calls, nowMs ≤ call.2.nowMs)
    (hrun : ∀ call ∈ calls, first ≤ call.2.nowMs ∧ ProviderState.InRun first call.2.nowMs) :
    behavior.answers calls = behavior'.answers (calls.filter fun call => !call.1) := by
  induction calls generalizing behavior behavior' nowMs with
  | nil => rfl
  | cons call calls ih =>
    obtain ⟨marked, op⟩ := call
    rw [List.map_cons, List.pairwise_cons] at hordered
    have hnow := hlater _ List.mem_cons_self
    obtain ⟨hfirst, hop⟩ := hrun _ List.mem_cons_self
    have hrest : ∀ call ∈ calls, op.nowMs ≤ call.2.nowMs := fun call hcall =>
      hordered.1 _ (List.mem_map_of_mem hcall)
    have hpolls' := fun op hmem => hpolls op (List.mem_cons_of_mem _ hmem)
    have hrun' := fun call hmem => hrun call (List.mem_cons_of_mem _ hmem)
    cases marked with
    | true =>
      obtain ⟨peer, at_, rfl⟩ := hpolls op List.mem_cons_self
      exact ih ((h.mono hnow).poll_left hop peer) hpolls' hordered.2 hrest hrun'
    | false =>
      obtain ⟨hanswer, hagree⟩ := h.step hnow hop hfirst
      show (behavior.step op).1 :: (behavior.step op).2.answers calls =
        (behavior'.step op).1 :: (behavior'.step op).2.answers (calls.filter fun call => !call.1)
      rw [hanswer, ih hagree hpolls' hordered.2 hrest hrun']

end Agree

/-- Polls that are added to a run change no other answer. -/
theorem answers_filter_polls {calls : List (Bool × Op)} (hclocked : Clocked (calls.map Prod.snd))
    (hpolls : ∀ op, (true, op) ∈ calls → ∃ peer at_, op = .isInCooldown peer at_) :
    answers {} calls = answers {} (calls.filter fun call => !call.1) := by
  cases calls with
  | nil => rfl
  | cons call calls =>
    -- everything is brought up to date between the first clock and the current one
    have hempty : Agree call.2.nowMs call.2.nowMs {} {} := by
      refine ⟨rfl, fun peer => ?_⟩
      rw [Finmap.lookup_empty]
      exact .none
    have hhead : call.2 ∈ (call :: calls).map Prod.snd := List.mem_cons_self
    have hle : ∀ other ∈ call :: calls, call.2.nowMs ≤ other.2.nowMs := by
      have hordered := hclocked.ordered
      rw [List.map_cons, List.pairwise_cons] at hordered
      intro other hother
      rcases List.mem_cons.mp hother with rfl | hrest
      · exact le_rfl
      · exact hordered.1 _ (List.mem_map_of_mem hrest)
    refine hempty.answers hpolls hclocked.ordered hle fun other hother => ⟨hle other hother, ?_⟩
    have hmem : other.2 ∈ (call :: calls).map Prod.snd := List.mem_map_of_mem hother
    exact ⟨(hclocked.positive _ hhead).1, (hclocked.positive _ hmem).2, hclocked.span _ hhead _ hmem⟩

/-! ## Deadlines -/

/-- The peer has an entry with this deadline, and so many entries are newer than its own. -/
structure Holds (behavior : ProviderBehavior) (peer : String) (deadline newer : ℕ) : Prop where
  behind : ∃ before after, behavior.order = before ++ peer :: after ∧ after.length = newer
  entry : ∃ state, behavior.peers.lookup peer = some state ∧ state.cooldownUntilMs = deadline

/-- An entry outlives the next new one, unless it is the oldest of a full table. -/
theorem holds_makeRoom {deadline newer : ℕ} (hordered : Ordered behavior)
    (h : Holds behavior peer deadline newer) (other : String)
    (hroom : newer + (if other ∈ behavior.peers then 0 else 1) < maxTrackedProviders) :
    Holds (behavior.makeRoom other) peer deadline
      (newer + if other ∈ behavior.peers then 0 else 1) := by
  obtain ⟨⟨before, after, horder, hlength⟩, state, hlookup, hdeadline⟩ := h
  by_cases hmem : other ∈ behavior.peers
  · rw [if_pos hmem, makeRoom, if_pos hmem]
    exact ⟨⟨before, after, horder, hlength⟩, state, hlookup, hdeadline⟩
  · rw [if_neg hmem] at hroom ⊢
    rw [makeRoom, if_neg hmem]
    have henumerates := hordered.enumerates
    rw [horder] at henumerates ⊢
    rcases henumerates.evictOldest_keeps with ⟨before', hkept, hsame⟩ | hfull
    · refine ⟨⟨before', after ++ [other], ?_, by simp [hlength]⟩, state, ?_, hdeadline⟩
      · show (evictOldest _ _ _).1 ++ [other] = _
        rw [hkept, List.append_assoc, List.cons_append]
      · exact hsame.trans hlookup
    · omega

theorem Holds.insert_ne {deadline newer : ℕ} (h : Holds behavior peer deadline newer) {other : String}
    (hother : peer ≠ other) (state : ProviderState) :
    Holds { behavior with peers := behavior.peers.insert other state } peer deadline newer := by
  obtain ⟨hbehind, found, hlookup, hdeadline⟩ := h
  exact ⟨hbehind, found, (Finmap.lookup_insert_of_ne _ hother).trans hlookup, hdeadline⟩

theorem Holds.record_self {deadline newer : ℕ} (h : Holds behavior peer deadline newer)
    (violation : ProviderViolation) (nowMs : ℕ) :
    Holds (behavior.record peer violation nowMs).2 peer
      ((behavior.record peer violation nowMs).1.getD deadline) newer := by
  obtain ⟨hbehind, state, hlookup, hdeadline⟩ := h
  have hmem := Finmap.mem_of_lookup_eq_some hlookup
  have hroom : behavior.makeRoom peer = behavior := if_pos hmem
  rw [record, hroom, hlookup, Option.getD_some]
  refine ⟨hbehind, _, Finmap.lookup_insert _, ?_⟩
  rw [ProviderState.charge_cooldownUntilMs, ProviderState.decay_cooldownUntilMs, hdeadline]

theorem Holds.isInCooldown {deadline newer : ℕ} (h : Holds behavior peer deadline newer)
    (other : String) (nowMs : ℕ) : Holds (behavior.isInCooldown other nowMs).2 peer deadline newer := by
  rw [ProviderBehavior.isInCooldown]
  cases hother : behavior.peers.lookup other with
  | none => exact h
  | some found =>
    by_cases hpeer : peer = other
    · subst hpeer
      obtain ⟨hbehind, state, hlookup, hdeadline⟩ := h
      obtain rfl := Option.some.inj (hlookup.symm.trans hother)
      exact ⟨hbehind, _, Finmap.lookup_insert _, by rw [ProviderState.decay_cooldownUntilMs, hdeadline]⟩
    · exact h.insert_ne hpeer _

/-- The entry after a call: its deadline is another one only if the call says so. -/
theorem Holds.step {deadline newer : ℕ} (hordered : Ordered behavior)
    (h : Holds behavior peer deadline newer) (op : Op)
    (hroom : newer + (if op.isFirstRecord behavior then 1 else 0) < maxTrackedProviders) :
    ∃ deadline', Holds (behavior.step op).2 peer deadline'
        (newer + if op.isFirstRecord behavior then 1 else 0) ∧
      ((∀ violation nowMs, op = .record peer violation nowMs →
        (behavior.record peer violation nowMs).1 = none) → deadline' = deadline) := by
  cases op with
  | isInCooldown other nowMs => exact ⟨deadline, h.isInCooldown other nowMs, fun _ => rfl⟩
  | record other violation nowMs =>
    by_cases hpeer : peer = other
    · subst hpeer
      obtain ⟨state, hlookup, -⟩ := h.entry
      have hknown : Op.isFirstRecord behavior (.record peer violation nowMs) = false := by
        simp [Op.isFirstRecord, Finmap.mem_of_lookup_eq_some hlookup]
      rw [hknown]
      refine ⟨_, h.record_self violation nowMs, fun hsame => ?_⟩
      rw [hsame violation nowMs rfl, Option.getD_none]
    · have hcount : (if Op.isFirstRecord behavior (.record other violation nowMs) then 1 else 0) =
          if other ∈ behavior.peers then 0 else 1 := by
        by_cases hmem : other ∈ behavior.peers <;> simp [Op.isFirstRecord, hmem]
      rw [hcount] at hroom ⊢
      exact ⟨deadline, (holds_makeRoom hordered h other hroom).insert_ne hpeer _, fun _ => rfl⟩

/-- The entry after a part of a run. -/
theorem Holds.run {deadline newer : ℕ} (hordered : Ordered behavior)
    (h : Holds behavior peer deadline newer) (ops : List Op)
    (hroom : newer + behavior.firstRecords ops < maxTrackedProviders) :
    ∃ deadline', Holds (behavior.runFrom ops) peer deadline'
        (newer + behavior.firstRecords ops) ∧
      ((∀ first violation nowMs rest, ops = first ++ .record peer violation nowMs :: rest →
        ((behavior.runFrom first).record peer violation
          nowMs).1 = none) → deadline' = deadline) := by
  induction ops generalizing behavior deadline newer with
  | nil => exact ⟨deadline, h, fun _ => rfl⟩
  | cons op ops ih =>
    rw [firstRecords, ← Nat.add_assoc] at hroom ⊢
    obtain ⟨next, hstep, hnext⟩ := h.step hordered op (by omega)
    obtain ⟨last, hrun, hlast⟩ := ih (hordered.step op) hstep hroom
    refine ⟨last, hrun, fun hsame => ?_⟩
    have hrest : last = next := hlast fun first violation nowMs rest hsplit =>
      hsame (op :: first) violation nowMs rest (by rw [hsplit]; rfl)
    exact hrest.trans (hnext fun violation nowMs hop => hsame [] violation nowMs ops (by rw [hop]; rfl))

/-- The record that makes the entry of a peer returns no deadline. -/
theorem holds_first_record (hnew : peer ∉ behavior.peers)
    (violation : ProviderViolation) (nowMs : ℕ) :
    (behavior.record peer violation nowMs).1 = none ∧
      Holds (behavior.record peer violation nowMs).2 peer 0 0 := by
  have hroom : behavior.makeRoom peer =
      { peers := (evictOldest maxTrackedProviders behavior.order behavior.peers).2
        order := (evictOldest maxTrackedProviders behavior.order behavior.peers).1 ++ [peer] } :=
    if_neg hnew
  have hgone : (evictOldest maxTrackedProviders behavior.order behavior.peers).2.lookup peer = none := by
    cases hlookup : (evictOldest maxTrackedProviders behavior.order behavior.peers).2.lookup peer with
    | none => rfl
    | some state => exact absurd (Finmap.mem_of_lookup_eq_some (lookup_evictOldest hlookup)) hnew
  rw [record, hroom]
  dsimp only
  rw [hgone, Option.getD_none]
  have hnone : ((({} : ProviderState).decay nowMs).charge violation nowMs).1 = none :=
    ProviderState.charge_fst_of_score violation nowMs (show 0 + 4 < disconnectScore by decide)
  refine ⟨hnone, ⟨_, [], rfl, rfl⟩, _, Finmap.lookup_insert _, ?_⟩
  rw [ProviderState.charge_cooldownUntilMs, hnone, ProviderState.decay_cooldownUntilMs]
  rfl

/-- Only a record of a peer adds its entry. -/
theorem mem_of_mem_step {op : Op} (h : peer ∈ (behavior.step op).2.peers) :
    peer ∈ behavior.peers ∨ ∃ violation nowMs, op = .record peer violation nowMs := by
  cases op with
  | isInCooldown other nowMs =>
    left
    change peer ∈ (behavior.isInCooldown other nowMs).2.peers at h
    rw [isInCooldown] at h
    cases hlookup : behavior.peers.lookup other with
    | none => rwa [hlookup] at h
    | some state =>
      rw [hlookup] at h
      rcases Finmap.mem_insert.mp h with rfl | hmem
      · exact Finmap.mem_of_lookup_eq_some hlookup
      · exact hmem
  | record other violation nowMs =>
    by_cases hpeer : peer = other
    · subst hpeer
      exact .inr ⟨violation, nowMs, rfl⟩
    · left
      rcases Finmap.mem_insert.mp h with rfl | hmem
      · exact absurd rfl hpeer
      · rw [makeRoom] at hmem
        split at hmem
        · exact hmem
        · obtain ⟨state, hstate⟩ := Finmap.mem_iff.mp hmem
          exact Finmap.mem_of_lookup_eq_some (lookup_evictOldest hstate)

/-- The record that made the entry of a peer: the entry was there ever since. -/
theorem exists_entered {ops : List Op} (h : peer ∈ (run ops).peers) :
    ∃ earlier violation nowMs since, ops = earlier ++ .record peer violation nowMs :: since ∧
      peer ∉ (run earlier).peers ∧
      ∀ first rest, since = first ++ rest →
        peer ∈ (run (earlier ++ .record peer violation nowMs :: first)).peers := by
  induction ops using List.reverseRecOn with
  | nil => exact absurd h (Finmap.notMem_empty)
  | append_singleton ops op ih =>
    by_cases hbefore : peer ∈ (run ops).peers
    · obtain ⟨earlier, violation, nowMs, since, rfl, hnew, hsince⟩ := ih hbefore
      refine ⟨earlier, violation, nowMs, since ++ [op], by simp, hnew, fun first rest hsplit => ?_⟩
      rcases List.eq_nil_or_concat rest with rfl | ⟨rest', op', rfl⟩
      · rw [List.append_nil] at hsplit
        rw [← hsplit]
        simpa using h
      · rw [List.concat_eq_append, ← List.append_assoc] at hsplit
        exact hsince first rest' (List.append_inj_left' hsplit rfl)
    · have hstep := h
      rw [run_concat] at hstep
      rcases mem_of_mem_step hstep with hmem | ⟨violation, nowMs, rfl⟩
      · exact absurd hmem hbefore
      · refine ⟨ops, violation, nowMs, [], rfl, hbefore, fun first rest hsplit => ?_⟩
        obtain ⟨rfl, -⟩ := List.append_eq_nil_iff.mp hsplit.symm
        exact h

/-- A record that returns a deadline is not the one that makes the entry. -/
theorem mem_of_record_eq_some {violation : ProviderViolation} {nowMs deadline : ℕ}
    (h : (behavior.record peer violation nowMs).1 = some deadline) : peer ∈ behavior.peers := by
  by_contra hnew
  rw [(holds_first_record hnew violation nowMs).1] at h
  nomatch h

/-- What an entry with a deadline says to a poll. -/
theorem Holds.isInCooldown_fst {deadline newer : ℕ} (h : Holds behavior peer deadline newer)
    (nowMs : ℕ) : (behavior.isInCooldown peer nowMs).1 = decide (nowMs < deadline) := by
  obtain ⟨state, hlookup, rfl⟩ := h.entry
  rw [ProviderBehavior.isInCooldown, hlookup]
  show decide (nowMs < (state.decay nowMs).cooldownUntilMs) = _
  rw [ProviderState.decay_cooldownUntilMs]

/-- A deadline holds until the next one, if fewer than `MAX_TRACKED_PROVIDERS` entries were made
since that of its peer. -/
theorem isInCooldown_of_record {earlier since after : List Op} {violation₀ violation : ProviderViolation}
    {nowMs₀ nowMs deadline : ℕ} (hnew : peer ∉ (run earlier).peers)
    (hdeadline : ((run (earlier ++ .record peer violation₀ nowMs₀ :: since)).record peer violation
      nowMs).1 = some deadline)
    (hlast : ∀ first violation' nowMs' rest, after = first ++ .record peer violation' nowMs' :: rest →
      ((run (earlier ++ .record peer violation₀ nowMs₀ :: since ++ .record peer violation nowMs ::
        first)).record peer violation' nowMs').1 = none)
    (hroom : (run (earlier ++ [.record peer violation₀ nowMs₀])).firstRecords
      (since ++ .record peer violation nowMs :: after) < maxTrackedProviders) (t : ℕ) :
    ((run (earlier ++ .record peer violation₀ nowMs₀ :: since ++ .record peer violation nowMs ::
      after)).isInCooldown peer t).1 = decide (t < deadline) := by
  have hsplit : ∀ first, run (earlier ++ .record peer violation₀ nowMs₀ :: first) =
      (run (earlier ++ [.record peer violation₀ nowMs₀])).runFrom first := fun first => by
    rw [← run_append, List.append_assoc, List.singleton_append]
  have hentered : Holds (run (earlier ++ [.record peer violation₀ nowMs₀])) peer 0 0 := by
    rw [run_concat]
    exact (holds_first_record hnew violation₀ nowMs₀).2
  have hordered := ordered_run (earlier ++ [.record peer violation₀ nowMs₀])
  generalize run (earlier ++ [.record peer violation₀ nowMs₀]) = entered at hsplit hentered hordered hroom
  rw [firstRecords_append, firstRecords] at hroom
  -- the entry lasts until the record that returns the deadline ...
  rw [hsplit] at hdeadline
  obtain ⟨before, hbefore, -⟩ := hentered.run hordered since (by omega)
  have hrecorded := hbefore.record_self violation nowMs
  rw [hdeadline, Option.getD_some] at hrecorded
  -- ... and the deadline from there to the poll
  have hafter : ∀ first, run (earlier ++ .record peer violation₀ nowMs₀ :: since ++
      .record peer violation nowMs :: first) =
      ((entered.runFrom since).record peer violation nowMs).2.runFrom first := fun first => by
    rw [List.append_assoc, List.cons_append, hsplit, runFrom, List.foldl_append]
    rfl
  have hmid := ordered_runFrom hordered since
  obtain ⟨final, hfinal, hsame⟩ := hrecorded.run (hmid.record peer violation nowMs) after (by
    change _ + (_ + firstRecords (record _ peer violation nowMs).2 after) < _ at hroom
    omega)
  rw [hafter, hfinal.isInCooldown_fst, hsame fun first violation' nowMs' rest hrest => ?_]
  rw [← hafter]
  exact hlast first violation' nowMs' rest hrest

/-- Polls that are added to a run change no other answer; a deadline holds until the next one unless
`MAX_TRACKED_PROVIDERS` entries were made since that of its peer; and the order lists the peers. -/
theorem polls_harmless_and_cooldowns_kept :
    (∀ calls : List (Bool × Op), Clocked (calls.map Prod.snd) →
      (∀ op, (true, op) ∈ calls → ∃ peer nowMs, op = .isInCooldown peer nowMs) →
      answers {} calls = answers {} (calls.filter fun call => !call.1)) ∧
    (∀ before peer violation nowMs deadline,
      ((run before).record peer violation nowMs).1 = some deadline →
      ∃ earlier violation₀ nowMs₀ since,
        before = earlier ++ .record peer violation₀ nowMs₀ :: since ∧
        peer ∉ (run earlier).peers ∧
        (∀ first rest, since = first ++ rest →
          peer ∈ (run (earlier ++ .record peer violation₀ nowMs₀ :: first)).peers) ∧
        ∀ after,
          (∀ first violation' nowMs' rest,
            after = first ++ .record peer violation' nowMs' :: rest →
            ((run (before ++ .record peer violation nowMs :: first)).record peer violation'
              nowMs').1 = none) →
          (run (earlier ++ [.record peer violation₀ nowMs₀])).firstRecords
            (since ++ .record peer violation nowMs :: after) < maxTrackedProviders →
          ∀ t, ((run (before ++ .record peer violation nowMs :: after)).isInCooldown peer t).1 =
            decide (t < deadline)) ∧
    ∀ ops, Enumerates (run ops).order (run ops).peers := by
  refine ⟨fun calls => answers_filter_polls, ?_, fun ops => (ordered_run ops).enumerates⟩
  intro before peer violation nowMs deadline hdeadline
  obtain ⟨earlier, violation₀, nowMs₀, since, rfl, hnew, hsince⟩ :=
    exists_entered (mem_of_record_eq_some hdeadline)
  refine ⟨earlier, violation₀, nowMs₀, since, rfl, hnew, hsince, ?_⟩
  intro after hlast hroom t
  exact isInCooldown_of_record hnew hdeadline hlast hroom t

/-- A poll between two malformed frames changes nothing, and after a third one the peer is left alone
until the deadline, whatever another peer does and is asked meanwhile. -/
theorem polls_harmless_and_cooldowns_kept_peer :
    (let calls := [(false, Op.record "peer" .malformedFrame 1000),
        (true, .isInCooldown "peer" 31001), (false, .record "peer" .malformedFrame 61000)]
     answers {} calls = answers {} (calls.filter fun call => !call.1)) ∧
    ∀ t, ((run ([.record "peer" .malformedFrame 1000, .record "peer" .malformedFrame 1001] ++
      .record "peer" .malformedFrame 1002 ::
        [.record "other" .malformedFrame 2000, .isInCooldown "other" 3000])).isInCooldown "peer" t).1 =
      decide (t < 61002) := by
  refine ⟨polls_harmless_and_cooldowns_kept.1 _ ⟨by decide, by decide, by decide⟩ ?_, fun t => ?_⟩
  · intro op hop
    simp only [List.mem_cons, Prod.mk.injEq, reduceCtorEq, false_and, true_and, false_or, or_false,
      List.not_mem_nil] at hop
    exact ⟨_, _, hop⟩
  · obtain ⟨earlier, violation₀, nowMs₀, since, hsplit, hnew, -, hkept⟩ :=
      polls_harmless_and_cooldowns_kept.2.1
        [.record "peer" .malformedFrame 1000, .record "peer" .malformedFrame 1001] "peer"
        .malformedFrame 1002 61002 (by decide +kernel)
    -- the entry of the peer was made by the first record
    have hentered : "peer" ∈ (run [.record "peer" .malformedFrame 1000]).peers := by decide +kernel
    rcases earlier with _ | ⟨op, _ | ⟨op', rest⟩⟩
    · cases hsplit
      refine hkept [.record "other" .malformedFrame 2000, .isInCooldown "other" 3000] ?_
        (by decide +kernel) t
      intro first violation' nowMs' rest hafter
      have hmem : Op.record "peer" violation' nowMs' ∈
          [Op.record "other" .malformedFrame 2000, .isInCooldown "other" 3000] := by
        rw [hafter]
        simp
      simp at hmem
    · cases hsplit
      exact absurd hentered hnew
    · have hlength := congrArg List.length hsplit
      simp at hlength

/-! ## A deadline that is forgotten -/

/-- Peer names. -/
def npub (i : ℕ) : String := "npub1" ++ String.ofList (List.replicate i 'q')

theorem npub_injective : Function.Injective npub := by
  intro i j h
  have hlength := congrArg String.length h
  simpa [npub] using hlength

/-- Records of new peers while there is room for them: their entries come after the others. -/
theorem order_runFrom_records (hordered : Ordered behavior) (names : List String)
    (hnodup : (behavior.order ++ names).Nodup)
    (hroom : behavior.order.length + names.length ≤ maxTrackedProviders)
    (violation : ProviderViolation) (nowMs : ℕ) :
    let last := behavior.runFrom (names.map fun name => .record name violation nowMs)
    last.order = behavior.order ++ names ∧
      ∀ peer ∈ behavior.order, last.peers.lookup peer = behavior.peers.lookup peer := by
  induction names generalizing behavior with
  | nil => exact ⟨(List.append_nil _).symm, fun _ _ => rfl⟩
  | cons name names ih =>
    rw [List.length_cons] at hroom
    have hnew : name ∉ behavior.order := fun hmem =>
      (List.nodup_append.mp hnodup).2.2 name hmem name List.mem_cons_self rfl
    have hfresh : name ∉ behavior.peers := mt (hordered.enumerates.mem_iff name).mpr hnew
    have hfits : ¬ maxTrackedProviders ≤ behavior.peers.size := by
      rw [← hordered.enumerates.length_eq]
      omega
    have hkept : evictOldest maxTrackedProviders behavior.order behavior.peers =
        (behavior.order, behavior.peers) := evictOldest_eq_self hfits
    have hmade : behavior.makeRoom name = { behavior with order := behavior.order ++ [name] } := by
      rw [makeRoom, if_neg hfresh, hkept]
    have hstep := hordered.record name violation nowMs
    have horder : (behavior.record name violation nowMs).2.order = behavior.order ++ [name] := by
      rw [record, hmade]
    obtain ⟨hlast, hsame⟩ := ih hstep (by rwa [horder, List.append_assoc]) (by
      rw [horder, List.length_append, List.length_singleton]
      omega)
    refine ⟨?_, fun peer hpeer => ?_⟩
    · rw [horder, List.append_assoc] at hlast
      exact hlast
    · refine (hsame peer (horder ▸ List.mem_append_left _ hpeer)).trans ?_
      have hne : peer ≠ name := fun heq => hnew (heq ▸ hpeer)
      rw [record, hmade]
      exact Finmap.lookup_insert_of_ne _ hne

/-- A record of a peer that has an entry. -/
theorem record_of_lookup {state : ProviderState} (h : behavior.peers.lookup peer = some state)
    (violation : ProviderViolation) (nowMs : ℕ) :
    behavior.record peer violation nowMs =
      (((state.decay nowMs).charge violation nowMs).1,
        { behavior with
          peers := behavior.peers.insert peer ((state.decay nowMs).charge violation nowMs).2 }) := by
  have hroom : behavior.makeRoom peer = behavior := if_pos (Finmap.mem_of_lookup_eq_some h)
  rw [record, hroom, h]
  rfl

/-- Everyone is recorded once, and the first peer once more. -/
def crowd (first : String) (others : List String) : List Op :=
  .record first .malformedFrame 1 :: others.map (fun name => .record name .malformedFrame 1) ++
    [.record first .malformedFrame 1]

theorem nowMs_of_mem_crowd {first : String} {others : List String} {op : Op}
    (hop : op ∈ crowd first others) : op.nowMs = 1 := by
  simp only [crowd, List.cons_append, List.mem_cons, List.mem_append, List.mem_map,
    List.not_mem_nil, or_false] at hop
  rcases hop with rfl | ⟨name, -, rfl⟩ | rfl
  · rfl
  · rfl
  · rfl

theorem clocked_crowd (first last : String) (others : List String) :
    Clocked (crowd first others ++ [.record first .malformedFrame 1,
      .record last .malformedFrame 1, .isInCooldown first 2]) := by
  have hclocks : ∀ op ∈ crowd first others ++ [Op.record first .malformedFrame 1,
      .record last .malformedFrame 1, .isInCooldown first 2], op.nowMs = 1 ∨ op.nowMs = 2 := by
    intro op hop
    rcases List.mem_append.mp hop with hcrowd | hlast
    · exact .inl (nowMs_of_mem_crowd hcrowd)
    · simp only [List.mem_cons, List.not_mem_nil, or_false] at hlast
      rcases hlast with rfl | rfl | rfl
      exacts [.inl rfl, .inl rfl, .inr rfl]
  refine ⟨?_, fun op hop => ?_, fun a ha b hb => ?_⟩
  · rw [List.pairwise_append]
    refine ⟨List.pairwise_of_forall_mem_list fun a ha b hb => ?_, ?_, fun a ha b hb => ?_⟩
    · rw [nowMs_of_mem_crowd ha, nowMs_of_mem_crowd hb]
    · simp [Op.nowMs]
    · rw [nowMs_of_mem_crowd ha]
      rcases hclocks b (List.mem_append_right _ hb) with hb' | hb' <;> omega
  · have hmax : 2 ≤ u64Max := by decide
    rcases hclocks op hop with h | h <;> omega
  · have hspan : 2 < 1 + 2 ^ 32 * scoreDecayIntervalMs := by decide
    rcases hclocks a ha with h | h <;> rcases hclocks b hb with h' | h' <;> omega

/-- Everyone in the crowd has an entry, that of the first peer being the oldest. -/
theorem run_crowd {first : String} {others : List String} (hnodup : (first :: others).Nodup)
    (hroom : others.length + 1 ≤ maxTrackedProviders) :
    (run (crowd first others)).order = first :: others ∧
      (run (crowd first others)).peers.lookup first = some { score := 8, updatedAtMs := 1 } := by
  have hentered : (run [.record first .malformedFrame 1]).order = [first] ∧
      (run [.record first .malformedFrame 1]).peers.lookup first =
        some { score := 4, updatedAtMs := 1 } := by
    have hnone : first ∉ ({} : ProviderBehavior).peers := Finmap.notMem_empty
    show (ProviderBehavior.makeRoom {} first).order = [first] ∧
      Finmap.lookup first ((ProviderBehavior.makeRoom {} first).peers.insert first _) = _
    rw [makeRoom, if_neg hnone]
    refine ⟨rfl, (Finmap.lookup_insert _).trans ?_⟩
    have hempty : (evictOldest maxTrackedProviders ({} : ProviderBehavior).order
        ({} : ProviderBehavior).peers).2.lookup first = none := Finmap.lookup_empty first
    rw [hempty]
    decide
  obtain ⟨horder, hsame⟩ := order_runFrom_records (ordered_run [.record first .malformedFrame 1])
    others (by rwa [hentered.1])
    (by rwa [hentered.1, List.length_singleton, Nat.add_comm]) .malformedFrame 1
  have hlookup := (hsame first (by rw [hentered.1]; exact List.mem_singleton_self _)).trans hentered.2
  rw [hentered.1] at horder
  have hrun : run (crowd first others) = (((run [.record first .malformedFrame 1]).runFrom
      (others.map fun name => .record name .malformedFrame 1)).record first .malformedFrame 1).2 := by
    rw [← run_append]
    exact run_concat _ _
  rw [hrun, record_of_lookup hlookup]
  exact ⟨horder, Finmap.lookup_insert _⟩

/-- In a full table the first peer reaches the threshold; one new peer takes its place. -/
theorem crowded_out {first last : String} {others : List String}
    (hnodup : (first :: others).Nodup) (hlast : last ∉ first :: others)
    (hfull : others.length + 1 = maxTrackedProviders) :
    ((run (crowd first others)).record first .malformedFrame 1).1 = some 60001 ∧
    ((run (crowd first others ++ [.record first .malformedFrame 1, .record last .malformedFrame 1])
      ).isInCooldown first 2).1 = false := by
  obtain ⟨horder, hlookup⟩ := run_crowd hnodup hfull.le
  have hrecord := record_of_lookup hlookup .malformedFrame 1
  have hordered := (ordered_run (crowd first others)).record first .malformedFrame 1
  have hrun : run (crowd first others ++
      [.record first .malformedFrame 1, .record last .malformedFrame 1]) =
      (((run (crowd first others)).record first .malformedFrame 1).2.record last
        .malformedFrame 1).2 := by
    rw [run_append, runFrom, List.foldl_cons, List.foldl_cons, List.foldl_nil, step_record,
      step_record]
  have hdeadline : ((ProviderState.decay { score := 8, updatedAtMs := 1 } 1).charge .malformedFrame
      1).1 = some 60001 := by
    decide
  refine ⟨(congrArg Prod.fst hrecord).trans hdeadline, ?_⟩
  rw [hrun]
  generalize hbehavior : ((run (crowd first others)).record first .malformedFrame 1).2 = behavior
    at hordered ⊢
  have hsame : behavior.order = first :: others := by
    rw [← hbehavior, hrecord]
    exact horder
  have henumerates := hordered.enumerates
  rw [hsame] at henumerates
  -- the new peer takes the place of the oldest entry
  have hnew : last ∉ behavior.peers := mt (henumerates.mem_iff last).mpr hlast
  have hroom : behavior.makeRoom last =
      { peers := behavior.peers.erase first, order := others ++ [last] } := by
    rw [makeRoom, if_neg hnew, hsame, henumerates.evictOldest_full hfull]
  have hne : first ≠ last := fun heq => hlast (heq ▸ List.mem_cons_self)
  have hgone : (behavior.record last .malformedFrame 1).2.peers.lookup first = none := by
    rw [record, hroom]
    exact (Finmap.lookup_insert_of_ne _ hne).trans (Finmap.lookup_erase _ _)
  rw [isInCooldown, hgone]

/-- The peers of a full table, and one more. -/
theorem npub_range_nodup : (npub 0 :: (List.range 1023).map fun i => npub (i + 1)).Nodup ∧
    npub 1024 ∉ npub 0 :: (List.range 1023).map fun i => npub (i + 1) := by
  refine ⟨List.nodup_cons.mpr ⟨fun hmem => ?_, List.nodup_range.map fun i j h => ?_⟩, fun hmem => ?_⟩
  · obtain ⟨i, -, hi⟩ := List.mem_map.mp hmem
    exact absurd (npub_injective hi) (Nat.succ_ne_zero i)
  · exact Nat.succ_injective (npub_injective h)
  · rcases List.mem_cons.mp hmem with heq | hmem
    · exact absurd (npub_injective heq) (by decide)
    · obtain ⟨i, hrange, hi⟩ := List.mem_map.mp hmem
      have hlt := List.mem_range.mp hrange
      have := npub_injective hi
      omega

/-- A deadline of a minute is gone after a millisecond, although a single new peer was recorded
in between. -/
theorem cooldown_forgotten :
    let full := crowd (npub 0) ((List.range 1023).map fun i => npub (i + 1))
    Clocked (full ++ [.record (npub 0) .malformedFrame 1, .record (npub 1024) .malformedFrame 1,
      .isInCooldown (npub 0) 2]) ∧
    ((run full).record (npub 0) .malformedFrame 1).1 = some 60001 ∧
    ((run (full ++ [.record (npub 0) .malformedFrame 1, .record (npub 1024) .malformedFrame 1])
      ).isInCooldown (npub 0) 2).1 = false := by
  have hlength : ((List.range 1023).map fun i => npub (i + 1)).length + 1 = maxTrackedProviders := by
    rw [List.length_map, List.length_range]
    rfl
  exact ⟨clocked_crowd _ _ _, crowded_out npub_range_nodup.1 npub_range_nodup.2 hlength⟩

end ProviderBehavior

end NostrPubsub.Fips
