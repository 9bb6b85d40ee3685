import NostrPubsub.Routing.Routes

/-!
# Publication through the router

`NostrPubsubRouter::publish_to_routes` of `nostr-pubsub/src/router.rs`. It asks the policy about one
source after the other and publishes to each source that is allowed before it asks about the next. A
policy that fails at a later source therefore makes the whole publication fail although publishers
have been called (`publishes_cleanly_iff`). The query and live paths ask about all sources first.

The policy is a function with a state of its own; a publisher is its answer to the one call it gets.
-/

namespace NostrPubsub

variable {nostr : NostrCrate} {σ : Type}

/-- `i32::MIN`. -/
def i32Min : ℤ := -2 ^ 31

/-- `RouterPublishSource`: a route and the `EventBus::publish` of its publisher. -/
structure RouterPublishSource (nostr : NostrCrate) where
  route : SourceRoute
  publisher : VerifiedEvent nostr → EventSource → Except PubsubError PublishReport
  /-- The priority of a report is an `i32`. -/
  priority_ge : ∀ event source report, publisher event source = .ok report → i32Min ≤ report.priority

/-- The variables of the loop of `publish_to_routes`, and the positions of the sources whose
publishers have been called. -/
structure PublishProgress where
  accepted : ℕ := 0
  attempted : ℕ := 0
  priority : ℤ := i32Min
  failures : List String := []
  called : List ℕ := []

namespace PublishProgress

/-- A publisher has answered. -/
def record (progress : PublishProgress) (position : ℕ) (routeId : String)
    (answer : Except PubsubError PublishReport) : PublishProgress :=
  let progress :=
    { progress with
      attempted := progress.attempted + 1, called := progress.called ++ [position] }
  match answer with
  | .ok report =>
    if report.accepted then
      { progress with
        accepted := progress.accepted + 1, priority := max progress.priority report.priority }
    else
      let reason := report.reason.getD "rejected"
      { progress with failures := progress.failures ++ [s!"{routeId}: {reason}"] }
  | .error error =>
    let reason := error.display
    { progress with failures := progress.failures ++ [s!"{routeId}: {reason}"] }

/-- The report at the end. -/
def report (progress : PublishProgress) : PublishReport where
  accepted := decide (0 < progress.accepted)
  priority := if 0 < progress.accepted then progress.priority else 0
  reason :=
    if progress.failures = [] then
      if progress.attempted = 0 then some "no publish route was selected" else none
    else some ("; ".intercalate progress.failures)

end PublishProgress

/-- The decision is not `PolicyDecision::Drop`. -/
def PolicyDecision.allows : PolicyDecision → Bool
  | .drop _ => false
  | _ => true

variable (policy : CheckSource σ) (event : VerifiedEvent nostr) (source : EventSource)

/-- The loop of `publish_to_routes`. -/
def publishLoop : ℕ → List (RouterPublishSource nostr) → PublishProgress → σ →
    Except PubsubError Unit × PublishProgress
  | _, [], progress, _ => (.ok (), progress)
  | position, target :: rest, progress, state =>
    match policy (sourcePolicyContext none none target.route) state with
    | (.error error, _) => (.error error, progress)
    | (.ok decision, state) =>
      if decision.allows then
        let progress := progress.record position target.route.id (target.publisher event source)
        publishLoop (position + 1) rest progress state
      else publishLoop (position + 1) rest progress state

/-- `NostrPubsubRouter::publish_to_routes`, with the positions of the sources whose publishers were
called. -/
def publishToRoutes (targets : List (RouterPublishSource nostr)) (state : σ) :
    Except PubsubError PublishReport × List ℕ :=
  let published := publishLoop policy event source 0 targets {} state
  (published.1.map fun _ => published.2.report, published.2.called)

/-! ## What the loop does -/

/-- The answers of the policy about the sources, up to its first failure. -/
def sourceChecks : List (RouterPublishSource nostr) → σ → List (Except PubsubError PolicyDecision)
  | [], _ => []
  | target :: rest, state =>
    match policy (sourcePolicyContext none none target.route) state with
    | (.error error, _) => [.error error]
    | (.ok decision, state) => .ok decision :: sourceChecks rest state

/-- The sources at which an answer of the policy allows publication, with their positions. -/
def allowedSources : ℕ → List (RouterPublishSource nostr) → List (Except PubsubError PolicyDecision) →
    List (ℕ × RouterPublishSource nostr)
  | position, target :: rest, .ok decision :: checks =>
    if decision.allows then (position, target) :: allowedSources (position + 1) rest checks
    else allowedSources (position + 1) rest checks
  | _, _, _ => []

/-- The failure that ends the answers of the policy. -/
def failedCheck : List (Except PubsubError PolicyDecision) → Except PubsubError Unit
  | [] => .ok ()
  | .error error :: _ => .error error
  | .ok _ :: checks => failedCheck checks

/-- The publishers of some sources answer one after the other. -/
def recordAll (targets : List (ℕ × RouterPublishSource nostr)) (progress : PublishProgress) :
    PublishProgress :=
  targets.foldl (fun progress target =>
    progress.record target.1 target.2.route.id (target.2.publisher event source)) progress

/-- The loop calls the publishers of the allowed sources up to the first failure of the policy. -/
theorem publishLoop_eq (position : ℕ) (targets : List (RouterPublishSource nostr))
    (progress : PublishProgress) (state : σ) :
    publishLoop policy event source position targets progress state =
      (failedCheck (sourceChecks policy targets state),
        recordAll event source (allowedSources position targets (sourceChecks policy targets state))
          progress) := by
  induction targets generalizing position progress state with
  | nil => rfl
  | cons target rest ih =>
    rw [publishLoop, sourceChecks]
    rcases policy (sourcePolicyContext none none target.route) state with ⟨error | decision, next⟩
    · rfl
    · simp only
      rw [allowedSources, failedCheck]
      split
      · rw [ih]
        rfl
      · rw [ih]

variable {policy event source}

/-- The sources that are called are those that the policy allows. -/
theorem mem_allowedSources {position : ℕ} {targets : List (RouterPublishSource nostr)} {state : σ}
    {entry : ℕ × RouterPublishSource nostr} :
    entry ∈ allowedSources position targets (sourceChecks policy targets state) ↔
      ∃ i decision, entry.1 = position + i ∧ targets[i]? = some entry.2 ∧
        (sourceChecks policy targets state)[i]? = some (.ok decision) ∧ decision.allows = true := by
  induction targets generalizing position state entry with
  | nil => simp [sourceChecks, allowedSources]
  | cons target rest ih =>
    rw [sourceChecks]
    rcases policy (sourcePolicyContext none none target.route) state with ⟨error | decision, next⟩
    · constructor
      · intro h
        cases h
      · rintro ⟨i, decision, -, -, hcheck, -⟩
        cases i with
        | zero => cases hcheck
        | succ i => cases hcheck
    · simp only
      have hrest : ∀ entry : ℕ × RouterPublishSource nostr,
          (∃ i decision', entry.1 = position + i ∧ (target :: rest)[i]? = some entry.2 ∧
            (.ok decision :: sourceChecks policy rest next)[i]? = some (.ok decision') ∧
            decision'.allows = true) ↔
          decision.allows = true ∧ entry = (position, target) ∨
            entry ∈ allowedSources (position + 1) rest (sourceChecks policy rest next) := by
        intro entry
        rw [ih]
        constructor
        · rintro ⟨i, decision', hposition, htarget, hcheck, hallows⟩
          cases i with
          | zero =>
            cases hcheck
            cases htarget
            exact .inl ⟨hallows, Prod.ext hposition rfl⟩
          | succ i => exact .inr ⟨i, decision', by omega, htarget, hcheck, hallows⟩
        · rintro (⟨hallows, rfl⟩ | ⟨i, decision', hposition, htarget, hcheck, hallows⟩)
          · exact ⟨0, decision, rfl, rfl, rfl, hallows⟩
          · exact ⟨i + 1, decision', by omega, htarget, hcheck, hallows⟩
      rw [hrest, allowedSources]
      split
      · next hallows => simp [hallows]
      · next hallows => simp [hallows]

/-- The positions of the sources that are called ascend. -/
theorem allowedSources_ascending (position : ℕ) (targets : List (RouterPublishSource nostr))
    (checks : List (Except PubsubError PolicyDecision)) :
    ((allowedSources position targets checks).map Prod.fst).Pairwise (· < ·) ∧
      ∀ entry ∈ allowedSources position targets checks, position ≤ entry.1 := by
  induction targets generalizing position checks with
  | nil => simp [allowedSources]
  | cons target rest ih =>
    match checks with
    | [] => simp [allowedSources]
    | .error error :: checks => simp [allowedSources]
    | .ok decision :: checks =>
      obtain ⟨hascending, hbound⟩ := ih (position + 1) checks
      rw [allowedSources]
      split
      · constructor
        · rw [List.map_cons, List.pairwise_cons]
          refine ⟨?_, hascending⟩
          intro later hlater
          obtain ⟨entry, hentry, rfl⟩ := List.mem_map.mp hlater
          exact hbound entry hentry
        · intro entry hentry
          rcases List.mem_cons.mp hentry with rfl | hentry
          · exact le_rfl
          · exact (Nat.le_succ position).trans (hbound entry hentry)
      · exact ⟨hascending, fun entry hentry => (Nat.le_succ position).trans (hbound entry hentry)⟩

theorem failedCheck_eq_error {checks : List (Except PubsubError PolicyDecision)} {error : PubsubError}
    (h : failedCheck checks = .error error) : .error error ∈ checks := by
  induction checks with
  | nil => cases h
  | cons check checks ih =>
    cases check with
    | error first =>
      cases h
      exact List.mem_cons_self
    | ok decision => exact List.mem_cons_of_mem _ (ih h)

theorem failedCheck_eq_ok {checks : List (Except PubsubError PolicyDecision)} {error : PubsubError}
    (h : failedCheck checks = .ok ()) : .error error ∉ checks := by
  induction checks with
  | nil => exact List.not_mem_nil
  | cons check checks ih =>
    cases check with
    | error first => cases h
    | ok decision =>
      intro hmem
      rcases List.mem_cons.mp hmem with heq | hmem
      · cases heq
      · exact ih h hmem

theorem length_sourceChecks_le (targets : List (RouterPublishSource nostr)) (state : σ) :
    (sourceChecks policy targets state).length ≤ targets.length := by
  induction targets generalizing state with
  | nil => rfl
  | cons target rest ih =>
    rw [sourceChecks]
    rcases policy (sourcePolicyContext none none target.route) state with ⟨error | decision, next⟩
    · exact Nat.succ_le_succ (Nat.zero_le _)
    · exact Nat.succ_le_succ (ih next)

theorem mem_positions_allowedSources {targets : List (RouterPublishSource nostr)} {state : σ} {i : ℕ} :
    i ∈ (allowedSources 0 targets (sourceChecks policy targets state)).map Prod.fst ↔
      ∃ decision, (sourceChecks policy targets state)[i]? = some (.ok decision) ∧
        decision.allows = true := by
  constructor
  · intro h
    obtain ⟨entry, hentry, rfl⟩ := List.mem_map.mp h
    obtain ⟨j, decision, hposition, -, hcheck, hallows⟩ := mem_allowedSources.mp hentry
    rw [Nat.zero_add] at hposition
    exact ⟨decision, hposition ▸ hcheck, hallows⟩
  · rintro ⟨decision, hcheck, hallows⟩
    obtain ⟨hlt, -⟩ := List.getElem?_eq_some_iff.mp hcheck
    have htarget := List.getElem?_eq_getElem (hlt.trans_le (length_sourceChecks_le targets state))
    exact List.mem_map.mpr ⟨(i, _),
      mem_allowedSources.mpr ⟨i, decision, (Nat.zero_add i).symm, htarget, hcheck, hallows⟩, rfl⟩

/-! ## What the publishers answer -/

/-- The publisher of a source accepts the event with this report. -/
def AcceptsWith (event : VerifiedEvent nostr) (source : EventSource)
    (target : RouterPublishSource nostr) (report : PublishReport) : Prop :=
  target.publisher event source = .ok report ∧ report.accepted = true

theorem recordAll_concat (targets : List (ℕ × RouterPublishSource nostr))
    (target : ℕ × RouterPublishSource nostr) (progress : PublishProgress) :
    recordAll event source (targets ++ [target]) progress =
      (recordAll event source targets progress).record target.1 target.2.route.id
        (target.2.publisher event source) := by
  rw [recordAll, List.foldl_append]
  rfl

theorem called_record (progress : PublishProgress) (position : ℕ) (routeId : String)
    (answer : Except PubsubError PublishReport) :
    (progress.record position routeId answer).called = progress.called ++ [position] := by
  unfold PublishProgress.record
  cases answer with
  | error error => rfl
  | ok report =>
    simp only
    split <;> rfl

theorem called_recordAll (targets : List (ℕ × RouterPublishSource nostr)) :
    (recordAll event source targets {}).called = targets.map Prod.fst := by
  induction targets using List.reverseRecOn with
  | nil => rfl
  | append_singleton targets target ih => rw [recordAll_concat, called_record, ih, List.map_append]; rfl

/-- The variables of the loop after some publishers have answered: something was accepted exactly if a
publisher has accepted the event, and the priority is the greatest of these reports. -/
structure Counts (event : VerifiedEvent nostr) (source : EventSource)
    (targets : List (ℕ × RouterPublishSource nostr)) (progress : PublishProgress) : Prop where
  accepted : 0 < progress.accepted ↔ ∃ target ∈ targets, ∃ report,
    AcceptsWith event source target.2 report
  greatest : 0 < progress.accepted → IsGreatest
    {priority | ∃ target ∈ targets, ∃ report, AcceptsWith event source target.2 report ∧
      report.priority = priority} progress.priority
  none : progress.accepted = 0 → progress.priority = i32Min

theorem Counts.nonempty_iff {targets : List (ℕ × RouterPublishSource nostr)}
    {progress : PublishProgress} (h : Counts event source targets progress) :
    {given | ∃ entry ∈ targets, AcceptsWith event source entry.2 given}.Nonempty ↔
      0 < progress.accepted := by
  rw [h.accepted]
  exact ⟨fun ⟨given, entry, hentry, haccepts⟩ => ⟨entry, hentry, given, haccepts⟩,
    fun ⟨entry, hentry, given, haccepts⟩ => ⟨given, entry, hentry, haccepts⟩⟩

theorem Counts.isGreatest_report {targets : List (ℕ × RouterPublishSource nostr)}
    {progress : PublishProgress} (h : Counts event source targets progress)
    (hpos : 0 < progress.accepted) :
    IsGreatest (PublishReport.priority ''
      {given | ∃ entry ∈ targets, AcceptsWith event source entry.2 given})
      progress.report.priority := by
  have hreport : progress.report.priority = progress.priority := if_pos hpos
  have hset : PublishReport.priority ''
      {given | ∃ entry ∈ targets, AcceptsWith event source entry.2 given} =
      {priority | ∃ entry ∈ targets, ∃ given, AcceptsWith event source entry.2 given ∧
        given.priority = priority} := by
    ext priority
    exact ⟨fun ⟨given, ⟨entry, hentry, haccepts⟩, heq⟩ => ⟨entry, hentry, given, haccepts, heq⟩,
      fun ⟨entry, hentry, given, haccepts, heq⟩ => ⟨given, ⟨entry, hentry, haccepts⟩, heq⟩⟩
  rw [hreport, hset]
  exact h.greatest hpos

theorem accepted_record_of_not (progress : PublishProgress) (position : ℕ) (routeId : String)
    {answer : Except PubsubError PublishReport}
    (h : ∀ report, answer = .ok report → report.accepted = false) :
    (progress.record position routeId answer).accepted = progress.accepted ∧
      (progress.record position routeId answer).priority = progress.priority := by
  unfold PublishProgress.record
  cases answer with
  | error error => exact ⟨rfl, rfl⟩
  | ok report =>
    have hreport := h report rfl
    simp [hreport]

/-- The bounds of `i32` make the first accepting report the greatest one so far. -/
theorem Counts.record_accepted {targets : List (ℕ × RouterPublishSource nostr)}
    {progress : PublishProgress} (h : Counts event source targets progress)
    {target : ℕ × RouterPublishSource nostr} {report : PublishReport}
    (haccepts : AcceptsWith event source target.2 report) :
    Counts event source (targets ++ [target])
      (progress.record target.1 target.2.route.id (target.2.publisher event source)) := by
  have hmem : target ∈ targets ++ [target] := List.mem_append_right _ (List.mem_singleton_self _)
  have hrecord : (progress.record target.1 target.2.route.id
      (target.2.publisher event source)).accepted = progress.accepted + 1 ∧
      (progress.record target.1 target.2.route.id (target.2.publisher event source)).priority =
        max progress.priority report.priority := by
    rw [haccepts.1]
    simp [PublishProgress.record, haccepts.2]
  refine ⟨?_, ?_, ?_⟩
  · rw [hrecord.1]
    exact ⟨fun _ => ⟨target, hmem, report, haccepts⟩, fun _ => Nat.succ_pos _⟩
  · intro _
    rw [hrecord.2]
    constructor
    · -- the maximum is attained by an earlier report or by this one
      rcases le_total progress.priority report.priority with hle | hle
      · exact ⟨target, hmem, report, haccepts, (max_eq_right hle).symm⟩
      · rw [max_eq_left hle]
        rcases Nat.eq_zero_or_pos progress.accepted with hzero | hpos
        · have hmin := target.2.priority_ge event source report haccepts.1
          rw [h.none hzero] at hle ⊢
          exact ⟨target, hmem, report, haccepts, le_antisymm hle hmin⟩
        · obtain ⟨earlier, hearlier, found⟩ := (h.greatest hpos).1
          exact ⟨earlier, List.mem_append_left _ hearlier, found⟩
    · rintro priority ⟨other, hother, found, hfound, rfl⟩
      rcases List.mem_append.mp hother with hother | hother
      · have hpos := h.accepted.mpr ⟨other, hother, found, hfound⟩
        exact le_max_of_le_left ((h.greatest hpos).2 ⟨other, hother, found, hfound, rfl⟩)
      · rw [List.mem_singleton.mp hother] at hfound
        have heq : found = report := Except.ok.inj (hfound.1.symm.trans haccepts.1)
        rw [heq]
        exact le_max_right _ _
  · intro hzero
    rw [hrecord.1] at hzero
    cases hzero

theorem Counts.record_refused {targets : List (ℕ × RouterPublishSource nostr)}
    {progress : PublishProgress} (h : Counts event source targets progress)
    {target : ℕ × RouterPublishSource nostr}
    (hrefuses : ∀ report, ¬AcceptsWith event source target.2 report) :
    Counts event source (targets ++ [target])
      (progress.record target.1 target.2.route.id (target.2.publisher event source)) := by
  have hfalse : ∀ report, target.2.publisher event source = .ok report →
      report.accepted = false := by
    intro report hreport
    rw [← Bool.not_eq_true]
    exact fun haccepted => hrefuses report ⟨hreport, haccepted⟩
  have hrecord := accepted_record_of_not progress target.1 target.2.route.id hfalse
  have hsame : ∀ property : PublishReport → Prop,
      (∃ entry ∈ targets ++ [target], ∃ report,
        AcceptsWith event source entry.2 report ∧ property report) ↔
      ∃ entry ∈ targets, ∃ report, AcceptsWith event source entry.2 report ∧ property report := by
    intro property
    constructor
    · rintro ⟨entry, hentry, report, haccepts, hproperty⟩
      rcases List.mem_append.mp hentry with hentry | hentry
      · exact ⟨entry, hentry, report, haccepts, hproperty⟩
      · rw [List.mem_singleton.mp hentry] at haccepts
        exact absurd haccepts (hrefuses report)
    · rintro ⟨entry, hentry, found⟩
      exact ⟨entry, List.mem_append_left _ hentry, found⟩
  refine ⟨?_, ?_, ?_⟩
  · rw [hrecord.1, h.accepted]
    simpa using (hsame fun _ => True).symm
  · intro hpos
    rw [hrecord.1] at hpos
    rw [hrecord.2]
    have hset : {priority | ∃ entry ∈ targets ++ [target], ∃ report,
        AcceptsWith event source entry.2 report ∧ report.priority = priority} =
        {priority | ∃ entry ∈ targets, ∃ report,
          AcceptsWith event source entry.2 report ∧ report.priority = priority} := by
      ext priority
      exact hsame fun report => report.priority = priority
    rw [hset]
    exact h.greatest hpos
  · rw [hrecord.1, hrecord.2]
    exact h.none

theorem counts_recordAll (targets : List (ℕ × RouterPublishSource nostr)) :
    Counts event source targets (recordAll event source targets {}) := by
  induction targets using List.reverseRecOn with
  | nil =>
    refine ⟨?_, nofun, fun _ => rfl⟩
    simp [recordAll]
  | append_singleton targets target ih =>
    rw [recordAll_concat]
    by_cases haccepts : ∃ report, AcceptsWith event source target.2 report
    · obtain ⟨report, haccepts⟩ := haccepts
      exact ih.record_accepted haccepts
    · exact ih.record_refused fun report h => haccepts ⟨report, h⟩

/-! ## Clean failure -/

variable (policy event source)

/-- A publication that fails has called no publisher. One that succeeds has called the publisher of
every source that the policy allows once, and its report sums up the accepting ones. -/
def PublishesCleanly (targets : List (RouterPublishSource nostr)) (state : σ) : Prop :=
  let (result, called) := publishToRoutes policy event source targets state
  match result with
  | .error _ => called = []
  | .ok report =>
    let accepting := {given : PublishReport | ∃ i ∈ called, ∃ target, targets[i]? = some target ∧
      AcceptsWith event source target given}
    called.Nodup ∧
      (∀ i, i ∈ called ↔ ∃ decision,
        (sourceChecks policy targets state)[i]? = some (.ok decision) ∧ decision.allows = true) ∧
      (report.accepted = true ↔ accepting.Nonempty) ∧
      (accepting.Nonempty → IsGreatest (PublishReport.priority '' accepting) report.priority) ∧
      (¬accepting.Nonempty → report.priority = 0)

variable {policy event source}

theorem publishToRoutes_eq (targets : List (RouterPublishSource nostr)) (state : σ) :
    publishToRoutes policy event source targets state =
      ((failedCheck (sourceChecks policy targets state)).map fun _ =>
          (recordAll event source (allowedSources 0 targets (sourceChecks policy targets state))
            {}).report,
        (allowedSources 0 targets (sourceChecks policy targets state)).map Prod.fst) := by
  rw [publishToRoutes, publishLoop_eq]
  simp only
  rw [called_recordAll]

/-- The reports of the sources at the called positions are those of the allowed sources. -/
theorem accepting_eq (targets : List (RouterPublishSource nostr)) (state : σ) :
    {given : PublishReport |
      ∃ i ∈ (allowedSources 0 targets (sourceChecks policy targets state)).map Prod.fst,
        ∃ target, targets[i]? = some target ∧ AcceptsWith event source target given} =
      {given | ∃ entry ∈ allowedSources 0 targets (sourceChecks policy targets state),
        AcceptsWith event source entry.2 given} := by
  ext given
  constructor
  · rintro ⟨i, hi, target, htarget, haccepts⟩
    obtain ⟨decision, hcheck, hallows⟩ := mem_positions_allowedSources.mp hi
    exact ⟨(i, target),
      mem_allowedSources.mpr ⟨i, decision, (Nat.zero_add i).symm, htarget, hcheck, hallows⟩, haccepts⟩
  · rintro ⟨entry, hentry, haccepts⟩
    obtain ⟨i, -, hposition, htarget, -⟩ := mem_allowedSources.mp hentry
    rw [Nat.zero_add] at hposition
    exact ⟨entry.1, List.mem_map_of_mem hentry, entry.2, hposition ▸ htarget, haccepts⟩

/-- A publication through the router is clean exactly if a policy that fails has allowed no source
before. -/
theorem publishes_cleanly_iff (policy : CheckSource σ) (event : VerifiedEvent nostr)
    (source : EventSource) (targets : List (RouterPublishSource nostr)) (state : σ) :
    PublishesCleanly policy event source targets state ↔
      ∀ error, .error error ∈ sourceChecks policy targets state →
        ∀ decision, .ok decision ∈ sourceChecks policy targets state → decision.allows = false := by
  rw [PublishesCleanly, publishToRoutes_eq]
  simp only
  rw [accepting_eq]
  set checks := sourceChecks policy targets state with hchecks
  have hcounts : Counts event source (allowedSources 0 targets checks)
      (recordAll event source (allowedSources 0 targets checks) {}) := counts_recordAll _
  cases hfailed : failedCheck checks with
  | error error =>
    -- the publication fails, so the question is whether an allowed source was called
    have herror := failedCheck_eq_error hfailed
    constructor
    · intro hcalled _ _ decision hdecision
      obtain ⟨i, hi⟩ := List.mem_iff_getElem?.mp hdecision
      rw [← Bool.not_eq_true]
      intro hallows
      have hcall := mem_positions_allowedSources.mpr ⟨decision, hi, hallows⟩
      rw [← hchecks, hcalled] at hcall
      cases hcall
    · intro hdrops
      refine List.eq_nil_iff_forall_not_mem.mpr fun i hi => ?_
      obtain ⟨decision, hdecision, hallows⟩ := mem_positions_allowedSources.mp hi
      rw [hdrops error herror decision (List.mem_of_getElem? hdecision)] at hallows
      cases hallows
  | ok done =>
    refine ⟨fun _ error herror => absurd herror (failedCheck_eq_ok hfailed), fun _ => ?_⟩
    have hascending := (allowedSources_ascending 0 targets checks).1
    refine ⟨hascending.imp Nat.ne_of_lt, fun i => mem_positions_allowedSources, ?_, ?_, ?_⟩
    · rw [hcounts.nonempty_iff]
      exact decide_eq_true_iff
    · intro hnonempty
      exact hcounts.isGreatest_report (hcounts.nonempty_iff.mp hnonempty)
    · intro hempty
      rw [hcounts.nonempty_iff] at hempty
      exact if_neg hempty

/-! ### A publication that fails after an acceptance -/

/-- A source whose publisher accepts every event. -/
def acceptingSource (kind : EventSourceKind) : RouterPublishSource noteCrate where
  route :=
    { id := "bus"
      datasetId := "notes"
      source := { id := "bus", kind, url := none }
      priority := 0
      reason := none
      capabilities := [] }
  publisher _ _ := .ok { accepted := true, priority := 5, reason := none }
  priority_ge := by
    rintro _ _ report ⟨⟩
    decide

/-- A policy that cannot decide about relays. -/
def undecidedAboutRelays : CheckSource Unit := fun context state =>
  (if context.candidate.source.kind = .relay then .error (.storage "ratings unavailable")
    else .ok (.allow 0), state)

/-- The local index accepts the event, then the policy fails at the relay. -/
theorem failed_publication_published :
    ¬PublishesCleanly undecidedAboutRelays verifiedA (.ofFipsEndpoint "local")
      [acceptingSource .localIndex, acceptingSource .relay] () := by
  change ¬[0] = []
  exact List.cons_ne_nil 0 []

end NostrPubsub
