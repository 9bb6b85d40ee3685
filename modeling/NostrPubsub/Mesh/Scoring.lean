import NostrPubsub.Mesh.RouteEvidence

/-!
# Credit and blame for a route

A route lives from the call that opens it to the prune or the call that drops it. In that time at
most one frame of a provider is credited. A provider is charged for not serving the event at most
once, by the prune that drops the route at its deadline, and only if the route is open then and no
transport failure has been marked for this provider since it was asked last (`route_scored_fairly`).
-/

namespace NostrPubsub

/-! ## Lifetimes -/

namespace InvWantMesh

variable {nostr : NostrCrate}

/-- The phases after `m` belong to one lifetime of the route of `eventId`: there is none in `m`, the
first of the phases opens it, and it is there after every one of them. -/
structure RouteLives (m : InvWantMesh) (eventId : String) (phases : List (Phase nostr)) : Prop where
  absent : eventId ∉ m.upstreamRoutes
  held : ∀ first, first <+: phases → first ≠ [] →
    eventId ∈ (Mealy.after Phase.run m first).upstreamRoutes

/-- One of the phases dismisses a frame of a provider. -/
def Dismissed (m : InvWantMesh) (eventId : String) (phases : List (Phase nostr)) : Prop :=
  ∃ first peer second, phases = first ++ .call (.dismissFrame peer eventId) :: second ∧
    (Mealy.after Phase.run m first).Provides peer eventId

/-- One of the phases reports a failure of the transport of a provider while the route is open, and
the provider is not asked again after it. -/
def Marked (m : InvWantMesh) (peer eventId : String) (phases : List (Phase nostr)) : Prop :=
  ∃ first second, phases = first ++ .call (.recordTransportDisruption peer eventId) :: second ∧
    (Mealy.after Phase.run m first).HasRoute
      (fun route => route.fulfilled = false ∧ peer ∈ route.providers) eventId ∧
    ∀ result ∈ Mealy.outputs Phase.run
        (Phase.run (.call (.recordTransportDisruption peer eventId) : Phase nostr)
          (Mealy.after Phase.run m first)).2 second,
      .send peer (.want eventId) ∉ result.emitted

/-- What the phases of a lifetime have recorded, and what the route tells about them. -/
structure Scored (m : InvWantMesh) (eventId : String) (phases : List (Phase nostr)) : Prop where
  unserved : ∀ peer, .unservedInventory peer eventId ∉ Phase.evidenceOver m phases
  frames_le : (Phase.evidenceOver m phases).countP (Evidence.isFrameFor eventId) ≤ 1
  served : 0 < (Phase.evidenceOver m phases).countP (Evidence.isFrameFor eventId) →
    (Mealy.after Phase.run m phases).HasRoute (fun route => route.fulfilled = true) eventId
  dismissed : m.Dismissed eventId phases →
    (Mealy.after Phase.run m phases).HasRoute (fun route => route.fulfilled = true) eventId
  marked : ∀ peer, m.Marked peer eventId phases →
    (Mealy.after Phase.run m phases).HasRoute
      (fun route => route.fulfilled = true ∨ peer ∈ route.transportDisruptedPeers) eventId

variable {m : InvWantMesh} {peer eventId : String}

/-- Dismissing a frame of a provider closes the route. -/
theorem hasRoute_fulfilled_dismissFrame (h : m.Provides peer eventId) :
    (m.dismissFrame peer eventId).HasRoute (fun route => route.fulfilled = true) eventId := by
  obtain ⟨route, hroute, hprovider⟩ := h
  have hany : ((m.upstreamRoutes.lookup eventId).any fun route => route.hasProvider peer) = true := by
    rw [hroute]
    exact UpstreamRoute.hasProvider_iff.mpr hprovider
  rw [dismissFrame, if_pos hany]
  exact hasRoute_fulfilled_closeRoute (Finmap.mem_of_lookup_eq_some hroute)

/-- A failure of the transport of a provider is marked on an open route. -/
theorem hasRoute_disrupted (h : m.HasRoute
    (fun route => route.fulfilled = false ∧ peer ∈ route.providers) eventId) :
    (m.recordTransportDisruption peer eventId).2.HasRoute
      (fun route => peer ∈ route.transportDisruptedPeers) eventId := by
  obtain ⟨route, hroute, hopen, hprovider⟩ := h
  have hknown : route.hasProvider peer = true := UpstreamRoute.hasProvider_iff.mpr hprovider
  unfold recordTransportDisruption
  rw [hroute]
  by_cases hmarked : peer ∈ route.transportDisruptedPeers
  · simp only [hmarked, not_true, decide_false, Bool.and_false, Bool.false_eq_true, if_false]
    exact ⟨route, hroute, hmarked⟩
  · simp only [hopen, hknown, hmarked, not_false_iff, decide_true, Bool.not_false, Bool.and_true,
      if_true]
    exact ⟨_, Finmap.lookup_insert _, Finset.mem_insert_self _ _⟩

theorem Scored.nil (m : InvWantMesh) (eventId : String) :
    m.Scored eventId ([] : List (Phase nostr)) where
  unserved _ := List.not_mem_nil
  frames_le := Nat.zero_le 1
  served h := absurd h (Nat.lt_irrefl 0)
  dismissed := by
    rintro ⟨first, _, _, hsplit, -⟩
    simp at hsplit
  marked := by
    rintro _ ⟨first, _, hsplit, -⟩
    simp at hsplit

theorem evidenceOver_concat (m : InvWantMesh) (phases : List (Phase nostr)) (p : Phase nostr) :
    Phase.evidenceOver m (phases ++ [p]) =
      Phase.evidenceOver m phases ++ p.evidence (Mealy.after Phase.run m phases) := by
  rw [Phase.evidenceOver_append, Phase.evidenceOver, Phase.evidenceOver, List.append_nil]

theorem exists_validFrame_of_countP_pos {evidence : List Evidence}
    (h : 0 < evidence.countP (Evidence.isFrameFor eventId)) :
    ∃ peer, .validFrame peer eventId ∈ evidence := by
  obtain ⟨e, he, hframe⟩ := List.countP_pos_iff.mp h
  obtain ⟨peer, rfl⟩ := Evidence.eq_validFrame_of_isFrameFor hframe
  exact ⟨peer, he⟩

/-- An open route has not been served. -/
theorem Scored.countP_eq_zero {phases : List (Phase nostr)} (h : m.Scored eventId phases)
    (hopen : (Mealy.after Phase.run m phases).HasRoute (fun route => route.fulfilled = false)
      eventId) :
    (Phase.evidenceOver m phases).countP (Evidence.isFrameFor eventId) = 0 := by
  by_contra hserved
  obtain ⟨route, hroute, hclosed⟩ := h.served (Nat.pos_of_ne_zero hserved)
  obtain ⟨found, hfound, hopen⟩ := hopen
  rw [hroute] at hfound
  cases hfound
  rw [hclosed] at hopen
  cases hopen

/-- However a phase ends the lifetime or goes on with it, at most one frame is credited. -/
theorem Scored.frames_concat_le {phases : List (Phase nostr)} (h : m.Scored eventId phases)
    (p : Phase nostr) :
    (Phase.evidenceOver m (phases ++ [p])).countP (Evidence.isFrameFor eventId) ≤ 1 := by
  rw [evidenceOver_concat, List.countP_append]
  have hlast := p.countP_isFrameFor_le (Mealy.after Phase.run m phases) eventId
  by_cases hcredited : 0 < (p.evidence (Mealy.after Phase.run m phases)).countP
      (Evidence.isFrameFor eventId)
  · obtain ⟨peer, hframe⟩ := exists_validFrame_of_countP_pos hcredited
    obtain ⟨⟨route, hroute, hopen, -⟩, -⟩ := Phase.validFrame_mem_evidence hframe
    have hnone := h.countP_eq_zero ⟨route, hroute, hopen⟩
    omega
  · have hbefore := h.frames_le
    omega

/-- A call in a list with one more phase is in the list or is that phase. -/
theorem concat_eq_append_cons {α : Type*} {l first second : List α} {a b : α}
    (h : l ++ [a] = first ++ b :: second) :
    second = [] ∧ first = l ∧ b = a ∨ ∃ rest, second = rest ++ [a] ∧ l = first ++ b :: rest := by
  rcases List.eq_nil_or_concat second with rfl | ⟨rest, last, rfl⟩
  · obtain ⟨hinit, hlast⟩ := List.append_inj' h rfl
    exact Or.inl ⟨rfl, hinit.symm, (List.singleton_inj.mp hlast).symm⟩
  · rw [List.concat_eq_append, ← List.cons_append, ← List.append_assoc] at h
    obtain ⟨hinit, hlast⟩ := List.append_inj' h rfl
    rw [List.singleton_inj.mp hlast, List.concat_eq_append]
    exact Or.inr ⟨rest, rfl, hinit⟩

/-- A closed route that is kept stays closed. -/
theorem hasRoute_fulfilled_run (h : m.RoutesAccounted) {p : Phase nostr}
    (hclosed : m.HasRoute (fun route => route.fulfilled = true) eventId)
    (hheld : eventId ∈ (p.run m).2.upstreamRoutes) :
    (p.run m).2.HasRoute (fun route => route.fulfilled = true) eventId := by
  obtain ⟨route, hroute, hfulfilled⟩ := hclosed
  obtain ⟨route', hroute'⟩ := Finmap.mem_iff.mp hheld
  exact ⟨route', hroute', (p.carries h eventId route route' hroute hroute').fulfilled hfulfilled⟩

/-- A mark on a route that is kept stays until its peer is asked again. -/
theorem hasRoute_marked_run (h : m.RoutesAccounted) {p : Phase nostr}
    (hmarked : m.HasRoute
      (fun route => route.fulfilled = true ∨ peer ∈ route.transportDisruptedPeers) eventId)
    (hheld : eventId ∈ (p.run m).2.upstreamRoutes)
    (hsilent : .send peer (.want eventId) ∉ (p.run m).1.emitted) :
    (p.run m).2.HasRoute
      (fun route => route.fulfilled = true ∨ peer ∈ route.transportDisruptedPeers) eventId := by
  obtain ⟨route, hroute, hcase⟩ := hmarked
  obtain ⟨route', hroute'⟩ := Finmap.mem_iff.mp hheld
  have hcontinues := p.carries h eventId route route' hroute hroute'
  refine ⟨route', hroute', ?_⟩
  rcases hcase with hfulfilled | hdisrupted
  · exact Or.inl (hcontinues.fulfilled hfulfilled)
  · rcases hcontinues.disrupted peer hdisrupted with hstill | hfulfilled | hasked
    · exact Or.inr hstill
    · exact Or.inl hfulfilled
    · exact absurd hasked hsilent

/-- One more phase of a lifetime. -/
theorem Scored.concat {phases : List (Phase nostr)} {p : Phase nostr} (h : m.Scored eventId phases)
    (hroutes : (Mealy.after Phase.run m phases).RoutesAccounted)
    (hheld : eventId ∈ (p.run (Mealy.after Phase.run m phases)).2.upstreamRoutes) :
    m.Scored eventId (phases ++ [p]) where
  unserved peer := by
    rw [evidenceOver_concat, List.mem_append]
    rintro (hbefore | hlast)
    · exact h.unserved peer hbefore
    · exact absurd hheld (Phase.unservedInventory_mem_evidence hlast).2
  frames_le := h.frames_concat_le p
  served hserved := by
    rw [evidenceOver_concat, List.countP_append] at hserved
    rw [Mealy.after_concat]
    by_cases hcredited : 0 < (p.evidence (Mealy.after Phase.run m phases)).countP
        (Evidence.isFrameFor eventId)
    · obtain ⟨peer, hframe⟩ := exists_validFrame_of_countP_pos hcredited
      exact (Phase.validFrame_mem_evidence hframe).2
    · exact hasRoute_fulfilled_run hroutes (h.served (by omega)) hheld
  dismissed hdismissed := by
    obtain ⟨first, peer, second, hsplit, hprovides⟩ := hdismissed
    rw [Mealy.after_concat]
    rcases concat_eq_append_cons hsplit with ⟨-, rfl, rfl⟩ | ⟨rest, -, hbefore⟩
    · exact hasRoute_fulfilled_dismissFrame hprovides
    · exact hasRoute_fulfilled_run hroutes (h.dismissed ⟨first, peer, rest, hbefore, hprovides⟩)
        hheld
  marked peer hmarked := by
    obtain ⟨first, second, hsplit, hopen, hsilent⟩ := hmarked
    rw [Mealy.after_concat]
    rcases concat_eq_append_cons hsplit with ⟨-, rfl, rfl⟩ | ⟨rest, rfl, hbefore⟩
    · obtain ⟨route, hroute, hdisrupted⟩ := hasRoute_disrupted hopen
      exact ⟨route, hroute, Or.inr hdisrupted⟩
    · rw [Mealy.outputs_concat] at hsilent
      have hmesh : Mealy.after Phase.run m phases = Mealy.after Phase.run
          (Phase.run (.call (.recordTransportDisruption peer eventId) : Phase nostr)
            (Mealy.after Phase.run m first)).2 rest := by
        rw [hbefore, Mealy.after_append, Mealy.after_cons]
      refine hasRoute_marked_run hroutes (h.marked peer ⟨first, rest, hbefore, hopen, ?_⟩) hheld ?_
      · intro result hresult
        exact hsilent result (List.mem_append_left _ hresult)
      · rw [hmesh]
        exact hsilent _ (List.mem_append_right _ (List.mem_singleton.mpr rfl))

end InvWantMesh

/-! ## Runs -/

section Runs

open InvWantMesh

variable {nostr : NostrCrate} {options : InvWantMeshOptions} {eventId : String}

/-- The mesh after some phases of a run is consistent, and no provider is listed twice. -/
theorem consistent_phases (options : InvWantMeshOptions) (phases : List (Phase nostr)) :
    Consistent options (Mealy.after Phase.run (InvWantMesh.new options) phases) ∧
      (Mealy.after Phase.run (InvWantMesh.new options) phases).ProvidersDistinct := by
  constructor
  · exact Mealy.invariant
      (Phase.preserves (fun order nowMs _ h => h.pruneExpired order nowMs)
        fun _ _ _ hupdate h => h.update hupdate)
      (Consistent.new options) phases
  · refine Mealy.invariant
      (Phase.preserves (fun order nowMs m h => h.of_noNewRoute (.pruneExpired m order nowMs))
        fun _ _ _ hupdate h => h.update hupdate) ?_ phases
    intro id route hroute
    cases hroute

/-- Every beginning of a lifetime is scored. -/
theorem scored_of_routeLives {before during : List (Phase nostr)}
    (h : (Mealy.after Phase.run (InvWantMesh.new options) before).RouteLives eventId during) :
    (Mealy.after Phase.run (InvWantMesh.new options) before).Scored eventId during := by
  induction during using List.reverseRecOn with
  | nil => exact .nil _ _
  | append_singleton during p ih =>
    have hshorter : (Mealy.after Phase.run (InvWantMesh.new options) before).RouteLives eventId
        during := ⟨h.absent, fun first hfirst => h.held first (hfirst.trans (List.prefix_append _ _))⟩
    refine (ih hshorter).concat ?_ ?_
    · rw [← Mealy.after_append]
      exact (consistent_phases options (before ++ during)).1.routes
    · have hheld := h.held (during ++ [p]) List.prefix_rfl (by simp)
      rwa [Mealy.after_concat] at hheld

end Runs

open InvWantMesh in
/-- Fair scoring. Take any lifetime of a route in a run, and the phase `p` of the run that follows: it
may end the lifetime or go on with it. The evidence of `p` is what it does to the peer behaviors. The
lifetime and `p` together credit at most one frame, and a frame is only credited to a provider of the
open route. They charge every provider at most once. If they charge one at all, then `p` is the prune
that drops the route because it is over, the route is open, the provider is not marked, no frame was
credited in the lifetime and none dismissed. -/
theorem route_scored_fairly {nostr : NostrCrate} (options : InvWantMeshOptions)
    (steps : List (Step nostr)) (eventId : String) (before during after : List (Phase nostr))
    (p : Phase nostr) (hrun : phasesOf steps = before ++ during ++ p :: after)
    (hlives : (Mealy.after Phase.run (InvWantMesh.new options) before).RouteLives eventId during) :
    let opened := Mealy.after Phase.run (InvWantMesh.new options) before
    let m := Mealy.after Phase.run opened during
    Mealy.after Phase.run (p.run m).2 after = meshAfter options steps ∧
    (p.run m).2.behaviors = ((p.evidence m).foldl recordEvidence m).behaviors ∧
    (Phase.evidenceOver opened (during ++ [p])).countP (Evidence.isFrameFor eventId) ≤ 1 ∧
    (∀ first q second peer, during ++ [p] = first ++ q :: second →
      .validFrame peer eventId ∈ q.evidence (Mealy.after Phase.run opened first) →
      (Mealy.after Phase.run opened first).HasRoute
        (fun route => route.fulfilled = false ∧ peer ∈ route.providers) eventId) ∧
    ∀ peer,
      (Phase.evidenceOver opened (during ++ [p])).count (.unservedInventory peer eventId) ≤ 1 ∧
      (.unservedInventory peer eventId ∈ Phase.evidenceOver opened (during ++ [p]) →
        (∃ order nowMs, p = .prune order nowMs ∧
          m.HasRoute (fun route => route.fulfilled = false ∧ route.expiresAtMs ≤ nowMs ∧
            peer ∈ route.providers) eventId) ∧
        eventId ∉ (p.run m).2.upstreamRoutes ∧
        ¬opened.Marked peer eventId during ∧ ¬opened.Dismissed eventId during ∧
        (Phase.evidenceOver opened (during ++ [p])).countP (Evidence.isFrameFor eventId) = 0) := by
  intro opened m
  have hscored : opened.Scored eventId during := scored_of_routeLives hlives
  have hend : Mealy.after Phase.run (p.run m).2 after = meshAfter options steps := by
    rw [← after_phasesOf, hrun, Mealy.after_append, Mealy.after_append, Mealy.after_cons]
  refine ⟨hend, p.behaviors_run m, hscored.frames_concat_le p, ?_, fun peer => ⟨?_, fun hcharged => ?_⟩⟩
  · intro first q second peer _ hframe
    exact (Phase.validFrame_mem_evidence hframe).1
  · rw [evidenceOver_concat, List.count_append, List.count_eq_zero.mpr (hscored.unserved peer),
      Nat.zero_add]
    cases p with
    | prune order nowMs =>
      have hdistinct : m.ProvidersDistinct := by
        have hall := (consistent_phases options (before ++ during)).2
        rwa [Mealy.after_append] at hall
      exact List.nodup_iff_count_le_one.mp (nodup_pruneEvidence hdistinct order nowMs) _
    | call op => exact List.count_le_length.trans (Phase.evidence_call op).1
  · rw [evidenceOver_concat, List.mem_append] at hcharged
    have hlast : .unservedInventory peer eventId ∈ p.evidence m :=
      hcharged.resolve_left (hscored.unserved peer)
    obtain ⟨⟨order, nowMs, rfl, route, hroute, hopen, hover, hprovider, hunmarked⟩, hgone⟩ :=
      Phase.unservedInventory_mem_evidence hlast
    -- the route that is charged is open and not marked, which the lifetime would have changed
    have hreads : ∀ Q : UpstreamRoute → Prop, m.HasRoute Q eventId → Q route := by
      rintro Q ⟨found, hfound, hQ⟩
      rw [hroute] at hfound
      cases hfound
      exact hQ
    refine ⟨⟨order, nowMs, rfl, route, hroute, hopen, hover, hprovider⟩, hgone, ?_, ?_, ?_⟩
    · intro hmarked
      rcases hreads _ (hscored.marked peer hmarked) with hclosed | hdisrupted
      · rw [hclosed] at hopen
        cases hopen
      · exact hunmarked hdisrupted
    · intro hdismissed
      have hclosed := hreads _ (hscored.dismissed hdismissed)
      rw [hclosed] at hopen
      cases hopen
    · rw [evidenceOver_concat, List.countP_append, hscored.countP_eq_zero ⟨route, hroute, hopen⟩,
        Nat.zero_add, List.countP_eq_zero]
      intro e he
      obtain ⟨_, _, rfl⟩ := Phase.eq_unservedInventory_of_mem_pruneEvidence he
      exact Bool.false_ne_true

/-- `p` announces a note and never serves it. -/
def noteUnserved : List (Step noteCrate) := [noteAnnounced 10, .ascending (.maintain 200000)]

/-- The prune after the deadline charges `p` once. -/
theorem route_scored_fairly_noteUnserved :
    (let opened := (InvWantMesh.new {}).prune (.ascending _) 10
      let asked : Phase noteCrate := .call (noteAnnounced 10).op
      let expired : Phase noteCrate := .prune (.ascending _) 200000
      .unservedInventory "p" noteA.id.toHex ∈ Phase.evidenceOver opened [asked, expired] ∧
      (Phase.evidenceOver opened [asked, expired]).count (.unservedInventory "p" noteA.id.toHex) ≤ 1 ∧
      ¬opened.Marked "p" noteA.id.toHex [asked]) := by
  intro opened asked expired
  have hlives : opened.RouteLives noteA.id.toHex [asked] := by
    refine ⟨by decide +kernel, fun first hfirst hne => ?_⟩
    cases first with
    | nil => exact absurd rfl hne
    | cons q rest =>
      obtain ⟨rfl, hrest⟩ := List.cons_prefix_cons.mp hfirst
      rw [List.prefix_nil.mp hrest]
      decide +kernel
  have hcharged : .unservedInventory "p" noteA.id.toHex ∈
      Phase.evidenceOver opened [asked, expired] := by decide +kernel
  obtain ⟨-, -, -, -, hpeers⟩ := route_scored_fairly {} noteUnserved noteA.id.toHex
    [.prune (.ascending _) 10] [asked] [.call (.maintain 200000)] expired rfl hlives
  obtain ⟨hcount, hfair⟩ := hpeers "p"
  exact ⟨hcharged, hcount, (hfair hcharged).2.2.1⟩

end NostrPubsub
