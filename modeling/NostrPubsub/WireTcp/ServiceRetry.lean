import NostrPubsub.Core

/-!
# Connection attempts of the wire driver

`ServiceRetry` (`nostr-pubsub-fips/src/wire_tcp/retry.rs`): when a selected peer may be connected to
again. Starts, failures, connections that last and service advertisements move the instant of the
next attempt up and down; `connect_peer` starts an attempt only when that instant has passed.

Instants and durations are counted in nanoseconds.
-/

namespace NostrPubsub.WireTcp

/-- `SERVICE_RETRY_INTERVAL`: three seconds. -/
def serviceRetryInterval : ℕ := 3 * 10 ^ 9

/-- `MAX_SERVICE_RETRY_INTERVAL`: one minute. -/
def maxServiceRetryInterval : ℕ := 60 * 10 ^ 9

/-- `STABLE_SERVICE_INTERVAL`: thirty seconds. -/
def stableServiceInterval : ℕ := 30 * 10 ^ 9

/-- `ServiceRetry`. -/
structure ServiceRetry where
  nextAttemptAt : Option ℕ := none
  failures : ℕ := 0
  retryScheduled : Bool := false
  connectedSince : Option ℕ := none
  deriving DecidableEq, Repr

namespace ServiceRetry

/-- `ServiceRetry::is_waiting`. -/
def isWaiting (retry : ServiceRetry) (now : ℕ) : Bool :=
  retry.nextAttemptAt.any fun due => now < due

/-- `ServiceRetry::started`. -/
def started (retry : ServiceRetry) (now : ℕ) : ServiceRetry :=
  { retry with
    nextAttemptAt := some (now + serviceRetryInterval)
    retryScheduled := false
    connectedSince := none }

/-- The delay after so many failures. -/
def delayAfter (failures : ℕ) : ℕ :=
  min (serviceRetryInterval * 2 ^ (failures - 1)) maxServiceRetryInterval

/-- `ServiceRetry::failed`. -/
def failed (retry : ServiceRetry) (now : ℕ) : ServiceRetry :=
  let failures := min (min (retry.failures + 1) u32Max) 6
  let due := now + delayAfter failures
  { nextAttemptAt := some (retry.nextAttemptAt.elim due fun old => max old due)
    failures
    retryScheduled := true
    connectedSince := none }

/-- `ServiceRetry::restore_fast_retry`. -/
def restoreFastRetry (retry : ServiceRetry) (now : ℕ) : ServiceRetry :=
  { retry with
    failures := 0
    nextAttemptAt := retry.nextAttemptAt.map fun due => min due (now + serviceRetryInterval) }

/-- `ServiceRetry::connected`. -/
def connected (retry : ServiceRetry) (now : ℕ) : ServiceRetry :=
  let since := retry.connectedSince.getD now
  let retry := { retry with connectedSince := some since }
  let retry := if stableServiceInterval ≤ now - since then retry.restoreFastRetry now else retry
  { retry with retryScheduled := false }

/-- `ServiceRetry::in_flight`. -/
def inFlight (retry : ServiceRetry) : ServiceRetry := { retry with retryScheduled := false }

/-- `ServiceRetry::next_retry_at`. -/
def nextRetryAt (retry : ServiceRetry) : Option ℕ :=
  if retry.retryScheduled then retry.nextAttemptAt else none

/-- `ServiceRetry::service_discovered`. -/
def serviceDiscovered (retry : ServiceRetry) (now : ℕ) : ServiceRetry :=
  { retry with connectedSince := none }.restoreFastRetry now

/-! ## Runs -/

/-- The operations that change the state. -/
inductive Operation where
  | started
  | failed
  | connected
  | inFlight
  | serviceDiscovered
  deriving DecidableEq, Repr

/-- An operation at an instant. -/
structure Step where
  operation : Operation
  now : ℕ
  deriving DecidableEq, Repr

def step (retry : ServiceRetry) (step : Step) : ServiceRetry :=
  match step.operation with
  | .started => retry.started step.now
  | .failed => retry.failed step.now
  | .connected => retry.connected step.now
  | .inFlight => retry.inFlight
  | .serviceDiscovered => retry.serviceDiscovered step.now

/-- A run of a peer that was just selected. -/
def run (steps : List Step) : ServiceRetry := steps.foldl step {}

/-- The instants do not decrease, and an attempt is started only when none has to be waited for. -/
structure Permitted (steps : List Step) : Prop where
  ordered : steps.Pairwise fun a b => a.now ≤ b.now
  started : ∀ before now after, steps = before ++ ⟨.started, now⟩ :: after →
    (run before).isWaiting now = false

/-- A connection was seen long enough ago, and nothing but this connection since. -/
def HasStableConnection (history : List Step) (now : ℕ) : Prop :=
  ∃ before since during, history = before ++ ⟨.connected, since⟩ :: during ∧
    (∀ step ∈ during, step.operation = .connected ∨ step.operation = .inFlight) ∧
    since + stableServiceInterval ≤ now

/-- A step after this history finds a stable connection or discovers the service. -/
def Recovers (history : List Step) (step : Step) : Prop :=
  step.operation = .serviceDiscovered ∨
    step.operation = .connected ∧ HasStableConnection history step.now

/-- No step of a part of a run recovers. -/
def Unrecovered (before during : List Step) : Prop :=
  ∀ first step rest, during = first ++ step :: rest → ¬ Recovers (before ++ first) step

theorem run_concat (steps : List Step) (last : Step) :
    run (steps ++ [last]) = (run steps).step last := by
  rw [run, List.foldl_append]
  rfl

theorem Permitted.of_append {before after : List Step} (h : Permitted (before ++ after)) :
    Permitted before where
  ordered := h.ordered.sublist (List.sublist_append_left _ _)
  started first now rest hsplit :=
    h.started first now (rest ++ after) (by rw [hsplit, List.append_assoc, List.cons_append])

theorem isWaiting_eq_false {retry : ServiceRetry} {now : ℕ} :
    retry.isWaiting now = false ↔ ∀ due, retry.nextAttemptAt = some due → due ≤ now := by
  rw [isWaiting]
  cases retry.nextAttemptAt with
  | none => simp
  | some due => simp

/-! ## Connections -/

/-- The state remembers when the connection was first seen that is there now. -/
theorem exists_of_connectedSince {steps : List Step} {since : ℕ}
    (h : (run steps).connectedSince = some since) :
    ∃ before during, steps = before ++ ⟨.connected, since⟩ :: during ∧
      ∀ step ∈ during, step.operation = .connected ∨ step.operation = .inFlight := by
  induction steps using List.reverseRecOn with
  | nil => cases h
  | append_singleton steps last ih =>
    -- a connection that was there is there still when the last step leaves it
    have hlater : (run steps).connectedSince = some since →
        last.operation = .connected ∨ last.operation = .inFlight →
        ∃ before during, steps ++ [last] = before ++ ⟨.connected, since⟩ :: during ∧
          ∀ step ∈ during, step.operation = .connected ∨ step.operation = .inFlight := by
      intro hsince hlast
      obtain ⟨before, during, rfl, hduring⟩ := ih hsince
      refine ⟨before, during ++ [last], by simp, fun step hstep => ?_⟩
      rcases List.mem_append.mp hstep with hstep | hstep
      · exact hduring step hstep
      · rwa [List.mem_singleton.mp hstep]
    rw [run_concat] at h
    obtain ⟨operation, now⟩ := last
    cases operation with
    | started => cases h
    | failed => cases h
    | serviceDiscovered => cases h
    | inFlight => exact hlater h (.inr rfl)
    | connected =>
      have hfirst : (run steps).connectedSince.getD now = since := by
        simp only [step, connected, restoreFastRetry] at h
        split at h <;> exact Option.some.inj h
      cases hprevious : (run steps).connectedSince with
      | none =>
        rw [hprevious, Option.getD_none] at hfirst
        exact ⟨steps, [], by rw [hfirst], fun _ hstep => absurd hstep List.not_mem_nil⟩
      | some previous =>
        rw [hprevious, Option.getD_some] at hfirst
        exact hlater (hfirst ▸ hprevious) (.inl rfl)

/-- Fast retries are restored only by a stable connection. -/
theorem connected_eq {history : List Step} {now : ℕ} (h : ¬ HasStableConnection history now) :
    ((run history).connected now).nextAttemptAt = (run history).nextAttemptAt ∧
      ((run history).connected now).failures = (run history).failures := by
  have hrecent : ¬ stableServiceInterval ≤ now - (run history).connectedSince.getD now := by
    intro hlong
    cases hsince : (run history).connectedSince with
    | none =>
      rw [hsince, Option.getD_none, Nat.sub_self] at hlong
      exact absurd hlong (by decide)
    | some since =>
      rw [hsince, Option.getD_some] at hlong
      obtain ⟨before, during, hsplit, hduring⟩ := exists_of_connectedSince hsince
      have hpositive : 0 < stableServiceInterval := by decide
      exact h ⟨before, since, during, hsplit, hduring, by omega⟩
  simp only [connected, if_neg hrecent, and_self]

/-! ## The next attempt -/

/-- No attempt is made before this instant. -/
def NotBefore (retry : ServiceRetry) (floor : ℕ) : Prop :=
  ∃ due, retry.nextAttemptAt = some due ∧ floor ≤ due

namespace NotBefore

variable {retry : ServiceRetry} {floor now : ℕ}

theorem le_of_isWaiting (h : retry.NotBefore floor) (hwaiting : retry.isWaiting now = false) :
    floor ≤ now := by
  obtain ⟨due, hdue, hfloor⟩ := h
  exact hfloor.trans (isWaiting_eq_false.mp hwaiting due hdue)

/-- A start puts the next attempt later than the one that is due. -/
theorem started (h : retry.NotBefore floor) (hwaiting : retry.isWaiting now = false) :
    (retry.started now).NotBefore floor :=
  ⟨_, rfl, (h.le_of_isWaiting hwaiting).trans (Nat.le_add_right _ _)⟩

theorem failed (h : retry.NotBefore floor) : (retry.failed now).NotBefore floor := by
  obtain ⟨due, hdue, hfloor⟩ := h
  refine ⟨_, rfl, ?_⟩
  rw [hdue]
  exact hfloor.trans (le_max_left _ _)

/-- A recovery keeps the spacing of attempts. -/
theorem restoreFastRetry (h : retry.NotBefore floor) (hfloor : floor ≤ now + serviceRetryInterval) :
    (retry.restoreFastRetry now).NotBefore floor := by
  obtain ⟨due, hdue, hle⟩ := h
  refine ⟨min due (now + serviceRetryInterval), ?_, le_min hle hfloor⟩
  rw [ServiceRetry.restoreFastRetry, hdue]
  rfl

theorem connected (h : retry.NotBefore floor) (hfloor : floor ≤ now + serviceRetryInterval) :
    (retry.connected now).NotBefore floor := by
  by_cases hlong : stableServiceInterval ≤ now - retry.connectedSince.getD now
  · have hrestored : ({ retry with connectedSince := some (retry.connectedSince.getD now) }
        : ServiceRetry).NotBefore floor := h
    simp only [ServiceRetry.connected, if_pos hlong]
    exact hrestored.restoreFastRetry hfloor
  · simp only [ServiceRetry.connected, if_neg hlong]
    exact h

/-- A step of a permitted run does not bring the next attempt before an instant, unless it recovers
and the instant is further away than the spacing of attempts. -/
theorem step {history : List Step} {last : Step} (hpermitted : Permitted (history ++ [last]))
    (h : (run history).NotBefore floor)
    (hkeep : floor ≤ last.now + serviceRetryInterval ∨ ¬ Recovers history last) :
    (run (history ++ [last])).NotBefore floor := by
  rw [run_concat]
  obtain ⟨operation, now⟩ := last
  cases operation with
  | started => exact h.started (hpermitted.started history now [] rfl)
  | failed => exact h.failed
  | inFlight => exact h
  | serviceDiscovered =>
    rcases hkeep with hfloor | hkeep
    · have hunseen : ({ run history with connectedSince := none } : ServiceRetry).NotBefore floor := h
      exact hunseen.restoreFastRetry hfloor
    · exact absurd (.inl rfl) hkeep
  | connected =>
    rcases hkeep with hfloor | hkeep
    · exact h.connected hfloor
    · obtain ⟨due, hdue, hfloor⟩ := h
      exact ⟨due, (connected_eq fun hstable => hkeep (.inr ⟨rfl, hstable⟩)).1.trans hdue, hfloor⟩

theorem run_append {before during : List Step} (hpermitted : Permitted (before ++ during))
    (h : (run before).NotBefore floor)
    (hkeep : ∀ first step rest, during = first ++ step :: rest →
      floor ≤ step.now + serviceRetryInterval ∨ ¬ Recovers (before ++ first) step) :
    (run (before ++ during)).NotBefore floor := by
  induction during using List.reverseRecOn with
  | nil => rwa [List.append_nil]
  | append_singleton during last ih =>
    rw [← List.append_assoc] at hpermitted ⊢
    refine (ih hpermitted.of_append fun first step rest hsplit => ?_).step hpermitted
      (hkeep during last [] rfl)
    exact hkeep first step (rest ++ [last]) (by rw [hsplit, List.append_assoc, List.cons_append])

end NotBefore

/-! ## Failures -/

theorem delayAfter_mono {a b : ℕ} (h : a ≤ b) : delayAfter a ≤ delayAfter b :=
  min_le_min_right _ (Nat.mul_le_mul_left _ (Nat.pow_le_pow_right (by decide) (by omega)))

/-- From the sixth failure on the delay is the largest. -/
theorem delayAfter_min (failures : ℕ) : delayAfter (min failures 6) = delayAfter failures := by
  rcases Nat.le_total failures 6 with hfew | hmany
  · rw [min_eq_left hfew]
  · have hlargest : delayAfter 6 = maxServiceRetryInterval := by decide
    have hle : delayAfter 6 ≤ delayAfter failures := delayAfter_mono hmany
    rw [min_eq_right hmany]
    exact le_antisymm hle ((min_le_right _ _).trans hlargest.ge)

/-- The failures of a part of a run. -/
def failuresIn (steps : List Step) : ℕ := steps.countP fun step => step.operation = .failed

theorem failures_failed (retry : ServiceRetry) (now : ℕ) :
    (retry.failed now).failures = min (retry.failures + 1) 6 := by
  show min (min (retry.failures + 1) u32Max) 6 = _
  rw [min_assoc, min_eq_right (show 6 ≤ u32Max by decide)]

theorem failuresIn_concat (steps : List Step) (last : Step) :
    failuresIn (steps ++ [last]) = failuresIn steps + if last.operation = .failed then 1 else 0 := by
  rw [failuresIn, List.countP_append, List.countP_singleton, ← failuresIn]
  simp

/-- Failures without a recovery add up, to six. -/
theorem le_failures {before during : List Step} (hunrecovered : Unrecovered before during) :
    min (failuresIn during) 6 ≤ (run (before ++ during)).failures := by
  induction during using List.reverseRecOn with
  | nil => exact Nat.zero_le _
  | append_singleton during last ih =>
    have hlast := hunrecovered during last [] rfl
    have hle := ih fun first step rest hsplit =>
      hunrecovered first step (rest ++ [last]) (by rw [hsplit, List.append_assoc, List.cons_append])
    rw [← List.append_assoc, run_concat, failuresIn_concat]
    obtain ⟨operation, now⟩ := last
    cases operation with
    | started => exact hle
    | inFlight => exact hle
    | serviceDiscovered => exact absurd (.inl rfl) hlast
    | failed =>
      show _ ≤ ((run (before ++ during)).failed now).failures
      rw [failures_failed, if_pos rfl]
      omega
    | connected =>
      have hsame := (connected_eq fun hstable => hlast (.inr ⟨rfl, hstable⟩)).2
      show _ ≤ ((run (before ++ during)).connected now).failures
      rw [hsame]
      exact hle

/-- After a failure the next attempt waits for the delay of all failures without a recovery. -/
theorem notBefore_failed {before first : List Step} {now : ℕ}
    (hunrecovered : Unrecovered before first) :
    (run (before ++ (first ++ [⟨.failed, now⟩]))).NotBefore
      (now + delayAfter (failuresIn first + 1)) := by
  rw [← List.append_assoc, run_concat]
  refine ⟨_, rfl, ?_⟩
  have hdelay : delayAfter (failuresIn first + 1) ≤
      delayAfter ((run (before ++ first)).failed now).failures := by
    rw [failures_failed, ← delayAfter_min]
    have := le_failures hunrecovered
    exact delayAfter_mono (by omega)
  have hdue : now + delayAfter (failuresIn first + 1) ≤
      now + delayAfter ((run (before ++ first)).failed now).failures := Nat.add_le_add_left hdelay now
  cases (run (before ++ first)).nextAttemptAt with
  | none => exact hdue
  | some old => exact hdue.trans (le_max_right _ _)

/-! ## Waiting ends -/

theorem nextAttemptAt_le {steps : List Step} {now due : ℕ}
    (hold : ∀ step ∈ steps, step.now + maxServiceRetryInterval ≤ now)
    (hdue : (run steps).nextAttemptAt = some due) : due ≤ now := by
  induction steps using List.reverseRecOn generalizing due with
  | nil => cases hdue
  | append_singleton steps last ih =>
    have hlast := hold last (by simp)
    have hprevious : ∀ {old}, (run steps).nextAttemptAt = some old → old ≤ now :=
      ih fun step hstep => hold step (List.mem_append_left _ hstep)
    have hretry : serviceRetryInterval ≤ maxServiceRetryInterval := by decide
    rw [run_concat] at hdue
    obtain ⟨operation, instant⟩ := last
    dsimp only at hlast
    cases operation with
    | started =>
      cases hdue
      show instant + serviceRetryInterval ≤ now
      omega
    | failed =>
      cases hdue
      have hdelay : delayAfter ((run steps).failed instant).failures ≤ maxServiceRetryInterval :=
        min_le_right _ _
      have hnew : instant + delayAfter ((run steps).failed instant).failures ≤ now := by omega
      cases hold : (run steps).nextAttemptAt with
      | none => exact hnew
      | some old => exact max_le (hprevious hold) hnew
    | inFlight => exact hprevious hdue
    | serviceDiscovered =>
      obtain ⟨old, hold, rfl⟩ := Option.map_eq_some_iff.mp hdue
      exact (min_le_left _ _).trans (hprevious hold)
    | connected =>
      simp only [step, connected] at hdue
      split at hdue
      · obtain ⟨old, hold, rfl⟩ := Option.map_eq_some_iff.mp hdue
        exact (min_le_left _ _).trans (hprevious hold)
      · exact hprevious hdue

/-- In every permitted run: two attempts are at least `serviceRetryInterval` apart; after a failure at
`now` with so many failures before it, and no recovery from the first of them on, no attempt is
started before the delay of all of them has passed; and nothing is waited for longer than
`maxServiceRetryInterval` after the last operation. -/
theorem attempts_rate_limited (steps : List Step) (hpermitted : Permitted steps) :
    (∀ before now during next after,
      steps = before ++ ⟨.started, now⟩ :: during ++ ⟨.started, next⟩ :: after →
      now + serviceRetryInterval ≤ next) ∧
    (∀ before first now during next after,
      steps = before ++ (first ++ ⟨.failed, now⟩ :: during) ++ ⟨.started, next⟩ :: after →
      Unrecovered before (first ++ ⟨.failed, now⟩ :: during) →
      now + min (serviceRetryInterval * 2 ^ failuresIn first) maxServiceRetryInterval ≤ next) ∧
    (∀ now, (∀ step ∈ steps, step.now + maxServiceRetryInterval ≤ now) →
      (run steps).isWaiting now = false) := by
  refine ⟨?_, ?_, fun now hold => isWaiting_eq_false.mpr fun _ => nextAttemptAt_le hold⟩
  · rintro before now during next after rfl
    have hinitial := (show Permitted ((before ++ [⟨.started, now⟩] ++ during) ++
      ⟨.started, next⟩ :: after) by simpa using hpermitted)
    have hstart : (run (before ++ [⟨.started, now⟩])).NotBefore (now + serviceRetryInterval) := by
      rw [run_concat]
      exact ⟨_, rfl, le_rfl⟩
    have hlater : ∀ step ∈ during, now ≤ step.now := by
      have hordered := (List.pairwise_append.mp hinitial.of_append.ordered).2.2
      exact fun step hstep => hordered ⟨.started, now⟩ (by simp) step hstep
    refine (hstart.run_append hinitial.of_append fun first step rest hsplit => .inl ?_).le_of_isWaiting
      (hinitial.started _ next after rfl)
    exact Nat.add_le_add_right (hlater step (by rw [hsplit]; simp)) _
  · rintro before first now during next after rfl hunrecovered
    have hinitial := (show Permitted ((before ++ (first ++ [⟨.failed, now⟩]) ++ during) ++
      ⟨.started, next⟩ :: after) by simpa using hpermitted)
    have hfailed : (run (before ++ (first ++ [⟨.failed, now⟩]))).NotBefore
        (now + delayAfter (failuresIn first + 1)) :=
      notBefore_failed fun a step b hsplit => hunrecovered a step (b ++ ⟨.failed, now⟩ :: during)
        (by rw [hsplit, List.append_assoc, List.cons_append])
    refine (hfailed.run_append hinitial.of_append fun a step b hsplit => .inr ?_).le_of_isWaiting
      (hinitial.started _ next after rfl)
    have := hunrecovered (first ++ ⟨.failed, now⟩ :: a) step b (by rw [hsplit]; simp)
    simpa using this

/-- Two attempts that fail after a second each, every start as early as it may be. -/
def twoFailures : List Step :=
  [⟨.started, 0⟩, ⟨.failed, 1 * 10 ^ 9⟩, ⟨.started, 4 * 10 ^ 9⟩, ⟨.failed, 5 * 10 ^ 9⟩,
    ⟨.started, 11 * 10 ^ 9⟩]

theorem permitted_twoFailures : Permitted twoFailures where
  ordered := by decide
  started := by
    have hall : ∀ k < 5, (twoFailures[k]?).all (fun step => decide (step.operation = .started →
        (run (twoFailures.take k)).isWaiting step.now = false)) = true := by decide
    intro before now after hsplit
    have hlength : before.length < 5 := by
      have hlen := congrArg List.length hsplit
      simp [twoFailures] at hlen
      omega
    have hstarted : twoFailures[before.length]? = some ⟨.started, now⟩ := by
      rw [hsplit]
      simp
    have htake : twoFailures.take before.length = before := by
      rw [hsplit, List.take_left]
    have hwaiting := hall before.length hlength
    rw [hstarted, Option.all_some, htake, decide_eq_true_eq] at hwaiting
    exact hwaiting rfl

/-- The second start waits for one delay, the third for the delay of two failures, and after a minute
nothing is waited for. -/
theorem attempts_rate_limited_twice :
    0 + serviceRetryInterval ≤ 4 * 10 ^ 9 ∧
    5 * 10 ^ 9 + min (serviceRetryInterval * 2 ^ 1) maxServiceRetryInterval ≤ 11 * 10 ^ 9 ∧
    (run twoFailures).isWaiting (11 * 10 ^ 9 + maxServiceRetryInterval) = false := by
  obtain ⟨hstarts, hfailures, hlast⟩ := attempts_rate_limited twoFailures permitted_twoFailures
  refine ⟨hstarts [] 0 [⟨.failed, 1 * 10 ^ 9⟩] _ [⟨.failed, 5 * 10 ^ 9⟩, ⟨.started, 11 * 10 ^ 9⟩] rfl,
    hfailures [⟨.started, 0⟩] [⟨.failed, 1 * 10 ^ 9⟩, ⟨.started, 4 * 10 ^ 9⟩] _ [] _ [] rfl ?_,
    hlast _ (by decide)⟩
  -- nothing recovers: the service is not discovered, and no connection is seen
  intro first step rest hsplit hrecovers
  have hmem : step ∈ [(⟨.failed, 1 * 10 ^ 9⟩ : Step), ⟨.started, 4 * 10 ^ 9⟩, ⟨.failed, 5 * 10 ^ 9⟩] := by
    rw [show [(⟨.failed, 1 * 10 ^ 9⟩ : Step), ⟨.started, 4 * 10 ^ 9⟩, ⟨.failed, 5 * 10 ^ 9⟩] =
      first ++ step :: rest from hsplit]
    simp
  have hneither : ∀ step ∈ [(⟨.failed, 1 * 10 ^ 9⟩ : Step), ⟨.started, 4 * 10 ^ 9⟩,
      ⟨.failed, 5 * 10 ^ 9⟩], step.operation ≠ .serviceDiscovered ∧ step.operation ≠ .connected := by
    decide
  obtain ⟨hdiscovered, hconnected⟩ := hneither step hmem
  exact hrecovers.elim hdiscovered fun h => hconnected h.1

end ServiceRetry

end NostrPubsub.WireTcp
