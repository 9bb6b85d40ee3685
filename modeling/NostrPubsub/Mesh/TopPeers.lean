import NostrPubsub.Mesh.PeerSelection
import NostrPubsub.ToMathlib.Leading

/-!
# The selection of peers is a constrained top

`select_mesh_peers` takes the `fanout` best of the distinct peers, and then replaces known peers by
unknown ones until the reserve for unknown peers is met. The result is described without the loop:
its known peers are the best known ones, its unknown peers the first unknown ones, and it differs
from the plain top by as few replacements as the reserve asks for.

- `rankedCandidates`: the distinct peers with the score that counts for them, best first;
- `IsConstrainedTop`: the description;
- `selectMeshPeers_isConstrainedTop`: the selection meets it, and does not depend on the order of
  peers with distinct ids.
-/

namespace NostrPubsub

/-! ## The candidates -/

/-- The first score given for an id. -/
def firstKnownScore (peers : List MeshPeer) (id : String) : Option ℤ :=
  peers.findSome? fun peer => if peer.id = id then peer.qualityScore else none

/-- The ids that may be selected. -/
def candidateIds (peers : List MeshPeer) (excludedPeer : Option String) : Finset String :=
  (peers.map MeshPeer.id).toFinset.filter (excludedPeer ≠ some ·)

/-- An id with the score that counts for it. -/
def candidate (peers : List MeshPeer) (id : String) : MeshPeer where
  id := id
  qualityScore := firstKnownScore peers id

/-- The candidates, best first. -/
def rankedCandidates (peers : List MeshPeer) (excludedPeer : Option String) : List MeshPeer :=
  sortByRank MeshPeer.rank ((candidateIds peers excludedPeer).ascending.map (candidate peers))

theorem firstKnownScore_concat (peers : List MeshPeer) (peer : MeshPeer) (id : String) :
    firstKnownScore (peers ++ [peer]) id =
      (firstKnownScore peers id).or (if peer.id = id then peer.qualityScore else none) := by
  rw [firstKnownScore, List.findSome?_append]
  simp [firstKnownScore, List.findSome?_singleton]

theorem firstKnownScore_filter {peers : List MeshPeer} {excludedPeer : Option String} {id : String}
    (h : excludedPeer ≠ some id) :
    firstKnownScore (peers.filter fun peer => excludedPeer ≠ some peer.id) id =
      firstKnownScore peers id := by
  induction peers with
  | nil => rfl
  | cons peer rest ih =>
    rw [List.filter_cons]
    by_cases hid : peer.id = id
    · subst hid
      rw [if_pos (by simpa using h)]
      simp only [firstKnownScore, List.findSome?_cons] at ih ⊢
      rw [ih]
    · split
      · simp only [firstKnownScore, List.findSome?_cons, hid, if_false] at ih ⊢
        exact ih
      · simp only [firstKnownScore, List.findSome?_cons, hid, if_false] at ih ⊢
        exact ih

/-- One step of `deduplicatePeers`. -/
def enterPeer (deduplicated : Table MeshPeer) (peer : MeshPeer) : Table MeshPeer :=
  match deduplicated.lookup peer.id with
  | some existing =>
    if existing.qualityScore.isNone && peer.qualityScore.isSome then
      deduplicated.insert peer.id peer
    else deduplicated
  | none => deduplicated.insert peer.id peer

theorem lookup_enterPeer_of_ne {deduplicated : Table MeshPeer} {peer : MeshPeer} {id : String}
    (h : id ≠ peer.id) : (enterPeer deduplicated peer).lookup id = deduplicated.lookup id := by
  rw [enterPeer]
  split
  · split
    · exact Finmap.lookup_insert_of_ne _ h
    · rfl
  · exact Finmap.lookup_insert_of_ne _ h

/-- After some peers have been entered, an id that was given has the first score given for it. -/
theorem lookup_foldl_enterPeer (peers : List MeshPeer) (id : String) :
    (peers.foldl enterPeer ∅).lookup id =
      if id ∈ peers.map MeshPeer.id then some (candidate peers id) else none := by
  induction peers using List.reverseRecOn with
  | nil => simp
  | append_singleton peers peer ih =>
    rw [List.foldl_append, List.foldl_cons, List.foldl_nil, candidate, firstKnownScore_concat]
    have hmem : id ∈ (peers ++ [peer]).map MeshPeer.id ↔ id ∈ peers.map MeshPeer.id ∨ id = peer.id := by
      rw [List.map_append, List.mem_append, List.map_singleton, List.mem_singleton]
    by_cases hid : id = peer.id
    · subst hid
      rw [if_pos (hmem.mpr (.inr rfl)), if_pos rfl, enterPeer]
      split
      · next existing hexisting =>
        -- the id was given before: its score stays unless it has none
        rw [ih] at hexisting
        split at hexisting
        · cases hexisting
          by_cases hnone : firstKnownScore peers peer.id = none
          · by_cases hscore : peer.qualityScore = none
            · rw [if_neg (by simp [hscore]), ih, if_pos ‹_›, candidate, hnone, hscore]
              rfl
            · rw [if_pos (by simp [candidate, hnone, Option.isSome_iff_ne_none, hscore]),
                Finmap.lookup_insert, hnone]
              rfl
          · obtain ⟨score, hscore⟩ := Option.ne_none_iff_exists'.mp hnone
            rw [if_neg (by simp [candidate, hscore]), ih, if_pos ‹_›, candidate, hscore]
            rfl
        · cases hexisting
      · next hnew =>
        rw [ih] at hnew
        split at hnew
        · cases hnew
        · next hfresh =>
          have hnone : firstKnownScore peers peer.id = none := by
            rw [firstKnownScore, List.findSome?_eq_none_iff]
            intro other hother
            rw [if_neg]
            exact fun heq => hfresh (heq ▸ List.mem_map_of_mem hother)
          rw [Finmap.lookup_insert, hnone]
          rfl
    · rw [or_iff_left hid] at hmem
      rw [lookup_enterPeer_of_ne hid, ih, if_neg (Ne.symm hid), Option.or_none, candidate]
      exact if_congr hmem.symm rfl rfl

theorem lookup_deduplicatePeers_eq (peers : List MeshPeer) (excludedPeer : Option String)
    (id : String) :
    (deduplicatePeers peers excludedPeer).lookup id =
      if id ∈ candidateIds peers excludedPeer then some (candidate peers id) else none := by
  have hfold := lookup_foldl_enterPeer (peers.filter fun peer => excludedPeer ≠ some peer.id) id
  have hmem : id ∈ (peers.filter fun peer => excludedPeer ≠ some peer.id).map MeshPeer.id ↔
      id ∈ candidateIds peers excludedPeer := by
    simp only [List.mem_map, List.mem_filter, candidateIds, Finset.mem_filter, List.mem_toFinset,
      decide_eq_true_eq]
    constructor
    · rintro ⟨peer, ⟨hpeer, hexcluded⟩, rfl⟩
      exact ⟨⟨peer, hpeer, rfl⟩, hexcluded⟩
    · rintro ⟨⟨peer, hpeer, rfl⟩, hexcluded⟩
      exact ⟨peer, ⟨hpeer, hexcluded⟩, rfl⟩
  refine hfold.trans ?_
  by_cases hid : id ∈ candidateIds peers excludedPeer
  · rw [if_pos hid, if_pos (hmem.mpr hid), candidate,
      firstKnownScore_filter (Finset.mem_filter.mp hid).2, candidate]
  · rw [if_neg hid, if_neg (mt hmem.mp hid)]

/-- The candidates that `selectMeshPeers` sorts. -/
theorem sorted_candidates_eq (peers : List MeshPeer) (excludedPeer : Option String) :
    ((deduplicatePeers peers excludedPeer).keys.ascending.filterMap fun id =>
      (deduplicatePeers peers excludedPeer).lookup id).insertionSort
        (fun left right => left.rank ≤ right.rank) = rankedCandidates peers excludedPeer := by
  have hkeys : (deduplicatePeers peers excludedPeer).keys = candidateIds peers excludedPeer := by
    ext id
    rw [Finmap.mem_keys, Finmap.mem_iff, lookup_deduplicatePeers_eq]
    split
    · next hid => exact ⟨fun _ => hid, fun _ => ⟨_, rfl⟩⟩
    · next hid => exact ⟨nofun, fun h => absurd h hid⟩
  have hlookup : ((candidateIds peers excludedPeer).ascending.filterMap fun id =>
      (deduplicatePeers peers excludedPeer).lookup id) =
      (candidateIds peers excludedPeer).ascending.map (candidate peers) := by
    rw [← List.filterMap_eq_map]
    refine List.filterMap_congr fun id hid => ?_
    rw [lookup_deduplicatePeers_eq, if_pos (Finset.mem_ascending.mp hid)]
    rfl
  rw [hkeys, hlookup, rankedCandidates, sortByRank]

theorem mem_rankedCandidates {peers : List MeshPeer} {excludedPeer : Option String}
    {peer : MeshPeer} :
    peer ∈ rankedCandidates peers excludedPeer ↔
      peer.id ∈ candidateIds peers excludedPeer ∧
        peer.qualityScore = firstKnownScore peers peer.id := by
  rw [rankedCandidates, mem_sortByRank, List.mem_map]
  constructor
  · rintro ⟨id, hid, rfl⟩
    exact ⟨Finset.mem_ascending.mp hid, rfl⟩
  · rintro ⟨hid, hscore⟩
    refine ⟨peer.id, Finset.mem_ascending.mpr hid, ?_⟩
    rw [candidate, ← hscore]

theorem map_id_rankedCandidates_perm (peers : List MeshPeer) (excludedPeer : Option String) :
    ((rankedCandidates peers excludedPeer).map MeshPeer.id).Perm
      (candidateIds peers excludedPeer).ascending := by
  have hperm := (perm_sortByRank MeshPeer.rank
    ((candidateIds peers excludedPeer).ascending.map (candidate peers))).map MeshPeer.id
  have hids : ((candidateIds peers excludedPeer).ascending.map (candidate peers)).map MeshPeer.id =
      (candidateIds peers excludedPeer).ascending := by
    rw [List.map_map]
    exact List.map_id _
  exact hperm.trans (List.Perm.of_eq hids)

theorem length_rankedCandidates (peers : List MeshPeer) (excludedPeer : Option String) :
    (rankedCandidates peers excludedPeer).length = (candidateIds peers excludedPeer).card := by
  rw [← Finset.length_ascending, ← (map_id_rankedCandidates_perm peers excludedPeer).length_eq,
    List.length_map]

theorem nodup_ids_rankedCandidates (peers : List MeshPeer) (excludedPeer : Option String) :
    ((rankedCandidates peers excludedPeer).map MeshPeer.id).Nodup :=
  (map_id_rankedCandidates_perm peers excludedPeer).nodup_iff.mpr (Finset.nodup_ascending _)

/-- The number of candidates without a score. -/
def unknownCount (peers : List MeshPeer) (excludedPeer : Option String) : ℕ :=
  ((candidateIds peers excludedPeer).filter fun id => firstKnownScore peers id = none).card

theorem countP_isUnknown_rankedCandidates (peers : List MeshPeer) (excludedPeer : Option String) :
    (rankedCandidates peers excludedPeer).countP MeshPeer.isUnknown =
      unknownCount peers excludedPeer := by
  rw [rankedCandidates, (perm_sortByRank _ _).countP_eq, List.countP_map, unknownCount,
    ← Finset.length_ascending, Finset.ascending_filter, List.countP_eq_length_filter]
  congr 1
  refine List.filter_congr fun id _ => ?_
  rw [Bool.eq_iff_iff, decide_eq_true_iff]
  exact Option.isNone_iff_eq_none

theorem strict_rankedCandidates (peers : List MeshPeer) (excludedPeer : Option String) :
    (rankedCandidates peers excludedPeer).Pairwise fun a b => a.rank < b.rank := by
  have hids := nodup_ids_rankedCandidates peers excludedPeer
  rw [List.Nodup, List.pairwise_map] at hids
  refine (sorted_sortByRank _).imp₂ (fun a b hle hne => lt_of_le_of_ne hle fun heq => hne ?_) hids
  exact congrArg (fun rank => (ofLex (ofLex rank).2).2) heq

/-! ## The replacements -/

/-- The known peers of a list. -/
def knownPeers (peers : List MeshPeer) : List MeshPeer := peers.filter fun peer => !peer.isUnknown

/-- The unknown peers of a list. -/
def unknownPeers (peers : List MeshPeer) : List MeshPeer := peers.filter MeshPeer.isUnknown

theorem knownPeers_append (a b : List MeshPeer) :
    knownPeers (a ++ b) = knownPeers a ++ knownPeers b := List.filter_append a b

theorem unknownPeers_append (a b : List MeshPeer) :
    unknownPeers (a ++ b) = unknownPeers a ++ unknownPeers b := List.filter_append a b

/-- A list is its known and its unknown peers. -/
theorem perm_known_unknown (peers : List MeshPeer) :
    peers.Perm (knownPeers peers ++ unknownPeers peers) :=
  ((List.filter_append_perm MeshPeer.isUnknown peers).symm).trans List.perm_append_comm

theorem lastKnownIndex_concat_of_unknown {peer : MeshPeer} (h : peer.isUnknown = true)
    (selected : List MeshPeer) : lastKnownIndex (selected ++ [peer]) = lastKnownIndex selected := by
  rw [lastKnownIndex, List.reverse_append, List.reverse_singleton, List.singleton_append,
    List.findIdx?_cons, h, lastKnownIndex]
  simp only [Bool.not_true, Bool.false_eq_true, if_false, Option.map_map]
  congr 1
  ext i
  simp only [Function.comp_apply, List.length_append, List.length_singleton]
  omega

/-- `rposition` finds the last known peer: what follows it is unknown. -/
theorem exists_last_known {selected : List MeshPeer} (h : knownPeers selected ≠ []) :
    ∃ before last after, selected = before ++ last :: after ∧ last.isUnknown = false ∧
      knownPeers after = [] ∧ lastKnownIndex selected = some before.length := by
  induction selected using List.reverseRecOn with
  | nil => exact absurd rfl h
  | append_singleton selected peer ih =>
    cases hunknown : peer.isUnknown with
    | false =>
      refine ⟨selected, peer, [], rfl, hunknown, rfl, ?_⟩
      simp [lastKnownIndex, List.findIdx?_cons, hunknown]
    | true =>
      have hselected : knownPeers selected ≠ [] := by
        intro hnil
        refine h ?_
        rw [knownPeers_append, hnil]
        simp [knownPeers, hunknown]
      obtain ⟨before, last, after, rfl, hlast, hafter, hindex⟩ := ih hselected
      refine ⟨before, last, after ++ [peer], by simp, hlast, ?_, ?_⟩
      · rw [knownPeers_append, hafter]
        simp [knownPeers, hunknown]
      · rw [lastKnownIndex_concat_of_unknown hunknown, hindex]

/-- What the loop of `select_mesh_peers` leaves: the last known peers have made room for the first
replacements, as many as are missing. -/
theorem reserveUnknown_eq (required : ℕ) (rest selected : List MeshPeer)
    (hrest : ∀ peer ∈ rest, peer.isUnknown = true) (missing : ℕ)
    (hmissing : missing = required - selected.countP MeshPeer.isUnknown)
    (henough : missing ≤ rest.length) (hknown : missing ≤ (knownPeers selected).length) :
    knownPeers (reserveUnknown required rest selected) =
        (knownPeers selected).take ((knownPeers selected).length - missing) ∧
      (unknownPeers (reserveUnknown required rest selected)).Perm
        (unknownPeers selected ++ rest.take missing) := by
  induction rest generalizing selected missing with
  | nil =>
    rw [List.length_nil, Nat.le_zero] at henough
    rw [reserveUnknown, henough]
    simp
  | cons replacement rest ih =>
    rw [reserveUnknown]
    by_cases hcount : selected.countP MeshPeer.isUnknown < required
    · obtain ⟨n, rfl⟩ : ∃ n, missing = n + 1 := ⟨missing - 1, by omega⟩
      have hne : knownPeers selected ≠ [] := by
        intro hnil
        rw [hnil] at hknown
        exact absurd hknown (Nat.not_succ_le_zero n)
      obtain ⟨before, last, after, rfl, hlast, hafter, hindex⟩ := exists_last_known hne
      rw [if_pos hcount, hindex]
      simp only
      have hset : (before ++ last :: after).set before.length replacement =
          before ++ replacement :: after := by
        rw [List.set_append_right _ _ le_rfl, Nat.sub_self, List.set_cons_zero]
      have hreplacement := hrest replacement List.mem_cons_self
      -- one known peer fewer, one unknown peer more
      have hknownOld : knownPeers (before ++ last :: after) = knownPeers before ++ [last] := by
        rw [knownPeers_append, ← List.singleton_append, knownPeers_append, hafter]
        simp [knownPeers, hlast]
      have hknownNew : knownPeers (before ++ replacement :: after) = knownPeers before := by
        rw [knownPeers_append, ← List.singleton_append, knownPeers_append, hafter]
        simp [knownPeers, hreplacement]
      have hunknown : (unknownPeers (before ++ replacement :: after)).Perm
          (unknownPeers (before ++ last :: after) ++ [replacement]) := by
        have hold : unknownPeers (before ++ last :: after) =
            unknownPeers before ++ unknownPeers after := by
          rw [unknownPeers_append]
          simp [unknownPeers, hlast]
        have hnew : unknownPeers (before ++ replacement :: after) =
            unknownPeers before ++ replacement :: unknownPeers after := by
          rw [unknownPeers_append]
          simp [unknownPeers, hreplacement]
        rw [hold, hnew]
        exact List.perm_middle.trans (List.perm_append_singleton _ _).symm
      have hcountNew : (before ++ replacement :: after).countP MeshPeer.isUnknown =
          (before ++ last :: after).countP MeshPeer.isUnknown + 1 := by
        rw [List.countP_eq_length_filter, List.countP_eq_length_filter]
        exact hunknown.length_eq.trans (by rw [List.length_append]; rfl)
      rw [hset]
      rw [hknownOld, List.length_append, List.length_singleton] at hknown
      obtain ⟨hkept, hjoined⟩ := ih (before ++ replacement :: after)
        (fun peer hpeer => hrest peer (List.mem_cons_of_mem _ hpeer)) n
        (by rw [hcountNew]; omega) (by simpa using henough) (by rw [hknownNew]; omega)
      constructor
      · rw [hkept, hknownNew, hknownOld, List.length_append, List.length_singleton,
          List.take_append_of_le_length (by omega)]
        congr 1
        omega
      · rw [List.take_succ_cons]
        refine hjoined.trans ((hunknown.append_right _).trans ?_)
        rw [List.append_assoc, List.singleton_append]
    · have hzero : missing = 0 := by omega
      rw [if_neg hcount, hzero]
      simp

/-! ## The selection -/

/-- The number of unknown peers that are put in the place of known ones: those that the reserve
asks for and the best peers do not have. -/
def missingUnknown (peers : List MeshPeer) (excludedPeer : Option String)
    (fanout unknownPeerReserve : ℕ) : ℕ :=
  min (min unknownPeerReserve fanout) (unknownCount peers excludedPeer) -
    ((rankedCandidates peers excludedPeer).take fanout).countP MeshPeer.isUnknown

/-- What `select_mesh_peers` is for. -/
structure IsConstrainedTop (peers : List MeshPeer) (excludedPeer : Option String)
    (fanout unknownPeerReserve : ℕ) (selected : List MeshPeer) : Prop where
  length : selected.length = min fanout (candidateIds peers excludedPeer).card
  nodup : (selected.map MeshPeer.id).Nodup
  scored : ∀ peer ∈ selected, peer.id ∈ candidateIds peers excludedPeer ∧
    peer.qualityScore = firstKnownScore peers peer.id
  reserved : min (min unknownPeerReserve fanout) (unknownCount peers excludedPeer) ≤
    selected.countP MeshPeer.isUnknown
  /-- A known peer is selected after the known peers of a higher score, and of a lower id if the
  scores are equal. -/
  known : ∀ peer ∈ selected, ∀ score, peer.qualityScore = some score →
    ∀ id ∈ candidateIds peers excludedPeer, ∀ better, firstKnownScore peers id = some better →
      score < better ∨ better = score ∧ id < peer.id → MeshPeer.observed id better ∈ selected
  /-- An unknown peer is selected after the unknown peers of a lower id. -/
  unknown : ∀ peer ∈ selected, peer.qualityScore = none →
    ∀ id ∈ candidateIds peers excludedPeer, firstKnownScore peers id = none →
      id < peer.id → MeshPeer.new id ∈ selected
  /-- The last known peers of the plain top make room for the next unknown peers. -/
  replaced : selected.Perm
    ((knownPeers ((rankedCandidates peers excludedPeer).take fanout)).take
        ((knownPeers ((rankedCandidates peers excludedPeer).take fanout)).length -
          missingUnknown peers excludedPeer fanout unknownPeerReserve) ++
      (unknownPeers ((rankedCandidates peers excludedPeer).take fanout) ++
        (unknownPeers ((rankedCandidates peers excludedPeer).drop fanout)).take
          (missingUnknown peers excludedPeer fanout unknownPeerReserve)))

section Selection

variable (peers : List MeshPeer) (excludedPeer : Option String) (fanout unknownPeerReserve : ℕ)

theorem length_knownPeers_add (l : List MeshPeer) :
    (knownPeers l).length + l.countP MeshPeer.isUnknown = l.length := by
  rw [(perm_known_unknown l).length_eq, List.length_append, List.countP_eq_length_filter]
  rfl

/-- There are known peers to replace and unknown ones to put in their place. -/
theorem missingUnknown_le :
    missingUnknown peers excludedPeer fanout unknownPeerReserve ≤
        (unknownPeers ((rankedCandidates peers excludedPeer).drop fanout)).length ∧
      missingUnknown peers excludedPeer fanout unknownPeerReserve ≤
        (knownPeers ((rankedCandidates peers excludedPeer).take fanout)).length := by
  have hcount := countP_isUnknown_rankedCandidates peers excludedPeer
  rw [missingUnknown]
  set ranked := rankedCandidates peers excludedPeer
  have hsplit : ranked.countP MeshPeer.isUnknown = (ranked.take fanout).countP MeshPeer.isUnknown +
      (unknownPeers (ranked.drop fanout)).length := by
    conv_lhs => rw [← List.take_append_drop fanout ranked]
    rw [List.countP_append, List.countP_eq_length_filter (l := ranked.drop fanout), unknownPeers]
  have htake := length_knownPeers_add (ranked.take fanout)
  rw [List.length_take] at htake
  have hle : ranked.countP MeshPeer.isUnknown ≤ ranked.length := List.countP_le_length
  have hdrop : (unknownPeers (ranked.drop fanout)).length ≤ ranked.length - fanout := by
    rw [← List.length_drop]
    exact List.length_filter_le _ _
  omega

/-- The known and the unknown peers that are selected. -/
theorem selectMeshPeers_eq :
    knownPeers (selectMeshPeers peers excludedPeer fanout unknownPeerReserve) =
        (knownPeers ((rankedCandidates peers excludedPeer).take fanout)).take
          ((knownPeers ((rankedCandidates peers excludedPeer).take fanout)).length -
            missingUnknown peers excludedPeer fanout unknownPeerReserve) ∧
      (unknownPeers (selectMeshPeers peers excludedPeer fanout unknownPeerReserve)).Perm
        (unknownPeers ((rankedCandidates peers excludedPeer).take fanout) ++
          (unknownPeers ((rankedCandidates peers excludedPeer).drop fanout)).take
            (missingUnknown peers excludedPeer fanout unknownPeerReserve)) := by
  obtain ⟨henough, hknown⟩ := missingUnknown_le peers excludedPeer fanout unknownPeerReserve
  have hcount := countP_isUnknown_rankedCandidates peers excludedPeer
  rw [selectMeshPeers, sorted_candidates_eq]
  by_cases hfew : (rankedCandidates peers excludedPeer).length ≤ fanout
  · -- everything is selected, and nothing is missing
    have hdrop : (rankedCandidates peers excludedPeer).drop fanout = [] := List.drop_eq_nil_of_le hfew
    have hzero : missingUnknown peers excludedPeer fanout unknownPeerReserve = 0 := by
      rw [hdrop] at henough
      exact Nat.le_zero.mp henough
    rw [if_pos hfew, hzero, hdrop, List.take_of_length_le hfew]
    simp
  · have htarget : min fanout (rankedCandidates peers excludedPeer).length = fanout := by omega
    rw [if_neg hfew]
    simp only [htarget]
    refine reserveUnknown_eq _ _ _ (fun peer hpeer => (List.mem_filter.mp hpeer).2)
      _ ?_ henough hknown
    rw [missingUnknown, hcount]

end Selection

/-- A beginning of a sorted list contains what comes before its elements. -/
theorem mem_of_isPrefix_of_rank_lt {l beginning : List MeshPeer}
    (hl : l.Pairwise fun a b => a.rank < b.rank) (h : beginning <+: l) {a b : MeshPeer}
    (ha : a ∈ beginning) (hb : b ∈ l) (hlt : b.rank < a.rank) : b ∈ beginning := by
  obtain ⟨rest, rfl⟩ := h
  rcases List.mem_append.mp hb with hb | hb
  · exact hb
  · exact absurd ((List.pairwise_append.mp hl).2.2 a ha b hb) hlt.not_gt

theorem isPrefix_knownPeers (peers : List MeshPeer) (excludedPeer : Option String)
    (fanout unknownPeerReserve : ℕ) :
    knownPeers (selectMeshPeers peers excludedPeer fanout unknownPeerReserve) <+:
      knownPeers (rankedCandidates peers excludedPeer) := by
  rw [(selectMeshPeers_eq peers excludedPeer fanout unknownPeerReserve).1]
  exact (List.take_prefix _ _).trans ((List.take_prefix fanout _).filter _)

/-- The unknown peers that are selected are the first of all. -/
theorem unknownPeers_perm_take (peers : List MeshPeer) (excludedPeer : Option String)
    (fanout unknownPeerReserve : ℕ) :
    ∃ beginning, beginning <+: unknownPeers (rankedCandidates peers excludedPeer) ∧
      (unknownPeers (selectMeshPeers peers excludedPeer fanout unknownPeerReserve)).Perm
        beginning := by
  refine ⟨_, ?_, (selectMeshPeers_eq peers excludedPeer fanout unknownPeerReserve).2⟩
  have hsplit : unknownPeers (rankedCandidates peers excludedPeer) =
      unknownPeers ((rankedCandidates peers excludedPeer).take fanout) ++
        unknownPeers ((rankedCandidates peers excludedPeer).drop fanout) := by
    rw [← unknownPeers_append, List.take_append_drop]
  rw [hsplit]
  exact (List.prefix_append_right_inj _).mpr (List.take_prefix _ _)

theorem isConstrainedTop_selectMeshPeers (peers : List MeshPeer) (excludedPeer : Option String)
    (fanout unknownPeerReserve : ℕ) :
    IsConstrainedTop peers excludedPeer fanout unknownPeerReserve
      (selectMeshPeers peers excludedPeer fanout unknownPeerReserve) := by
  obtain ⟨hknown, hunknown⟩ := selectMeshPeers_eq peers excludedPeer fanout unknownPeerReserve
  obtain ⟨henough, hreplaceable⟩ := missingUnknown_le peers excludedPeer fanout unknownPeerReserve
  have hstrict := strict_rankedCandidates peers excludedPeer
  have hbest := isPrefix_knownPeers peers excludedPeer fanout unknownPeerReserve
  obtain ⟨beginning, hbeginning, hperm⟩ :=
    unknownPeers_perm_take peers excludedPeer fanout unknownPeerReserve
  -- How many unknown peers are selected: those of the top and those that the reserve still misses.
  have hcount : (unknownPeers (selectMeshPeers peers excludedPeer fanout
      unknownPeerReserve)).length =
      ((rankedCandidates peers excludedPeer).take fanout).countP MeshPeer.isUnknown +
        missingUnknown peers excludedPeer fanout unknownPeerReserve := by
    rw [hunknown.length_eq, List.length_append, List.length_take, min_eq_left henough,
      List.countP_eq_length_filter]
    rfl
  have hmem : ∀ peer ∈ selectMeshPeers peers excludedPeer fanout unknownPeerReserve,
      peer ∈ rankedCandidates peers excludedPeer := by
    intro peer hpeer
    rcases List.mem_append.mp ((perm_known_unknown _).mem_iff.mp hpeer) with hpeer | hpeer
    · exact List.mem_of_mem_filter (hbest.subset hpeer)
    · exact List.mem_of_mem_filter (hbeginning.subset (hperm.mem_iff.mp hpeer))
  refine
    { length := ?_
      nodup := (selectMeshPeers_spec peers excludedPeer fanout unknownPeerReserve).2.1
      scored := fun peer hpeer => mem_rankedCandidates.mp (hmem peer hpeer)
      reserved := ?_
      known := ?_
      unknown := ?_
      replaced := ?_ }
  · have htop := length_knownPeers_add ((rankedCandidates peers excludedPeer).take fanout)
    rw [List.length_take, length_rankedCandidates] at htop
    rw [(perm_known_unknown _).length_eq, List.length_append, hcount, hknown, List.length_take]
    omega
  · have hunknownCount := List.countP_eq_length_filter (p := MeshPeer.isUnknown)
      (l := selectMeshPeers peers excludedPeer fanout unknownPeerReserve)
    rw [← unknownPeers, hcount] at hunknownCount
    rw [hunknownCount, missingUnknown]
    omega
  · -- a better known peer precedes a selected one in the ranking, and the known ones are a
    -- beginning of it
    intro peer hpeer score hscore id hid better hbetter hlt
    have hself : peer ∈ knownPeers (selectMeshPeers peers excludedPeer fanout unknownPeerReserve) :=
      List.mem_filter.mpr ⟨hpeer, by simp [MeshPeer.isUnknown, hscore]⟩
    have hother : MeshPeer.observed id better ∈ knownPeers (rankedCandidates peers excludedPeer) :=
      List.mem_filter.mpr ⟨mem_rankedCandidates.mpr ⟨hid, hbetter.symm⟩, rfl⟩
    refine List.mem_of_mem_filter
      (mem_of_isPrefix_of_rank_lt (hstrict.filter _) hbest hself hother ?_)
    have hknownPeer : peer.isUnknown = false := by simp [MeshPeer.isUnknown, hscore]
    rw [MeshPeer.rank, MeshPeer.rank, Prod.Lex.toLex_lt_toLex, Prod.Lex.toLex_lt_toLex, hknownPeer]
    simp only [MeshPeer.effectiveScore, MeshPeer.observed, MeshPeer.isUnknown, hscore,
      Option.getD_some, Option.isNone_some, lt_self_iff_false, false_or, true_and]
    rcases hlt with hlt | ⟨rfl, hlt⟩
    · exact .inl (Int.neg_lt_neg hlt)
    · exact .inr ⟨rfl, hlt⟩
  · -- all unknown peers have the same score, so that only the id tells them apart
    intro peer hpeer hnone id hid hscore hlt
    have hself : peer ∈ beginning :=
      hperm.mem_iff.mp (List.mem_filter.mpr ⟨hpeer, by simp [MeshPeer.isUnknown, hnone]⟩)
    have hother : MeshPeer.new id ∈ unknownPeers (rankedCandidates peers excludedPeer) :=
      List.mem_filter.mpr ⟨mem_rankedCandidates.mpr ⟨hid, hscore.symm⟩, rfl⟩
    refine List.mem_of_mem_filter (hperm.mem_iff.mpr
      (mem_of_isPrefix_of_rank_lt (hstrict.filter _) hbeginning hself hother ?_))
    rw [MeshPeer.rank, MeshPeer.rank, Prod.Lex.toLex_lt_toLex, Prod.Lex.toLex_lt_toLex]
    simp only [MeshPeer.effectiveScore, MeshPeer.new, MeshPeer.isUnknown, hnone, Option.getD_none,
      Option.isNone_none, lt_self_iff_false, false_or, true_and]
    exact hlt
  · refine (perm_known_unknown _).trans ?_
    rw [hknown]
    exact hunknown.append_left _

/-! ## The order of the peers -/

theorem firstKnownScore_of_nodup {peers : List MeshPeer} (h : (peers.map MeshPeer.id).Nodup)
    {peer : MeshPeer} (hpeer : peer ∈ peers) :
    firstKnownScore peers peer.id = peer.qualityScore := by
  induction peers with
  | nil => cases hpeer
  | cons first rest ih =>
    rw [List.map_cons, List.nodup_cons] at h
    rw [firstKnownScore, List.findSome?_cons]
    rcases List.mem_cons.mp hpeer with rfl | hpeer
    · have hnone : (rest.findSome? fun other =>
          if other.id = peer.id then other.qualityScore else none) = none := by
        rw [List.findSome?_eq_none_iff]
        intro other hother
        refine if_neg fun hid => h.1 ?_
        rw [← hid]
        exact List.mem_map_of_mem hother
      rw [if_pos rfl, hnone]
      cases peer.qualityScore <;> rfl
    · have hne : first.id ≠ peer.id := fun heq => h.1 (heq ▸ List.mem_map_of_mem hpeer)
      rw [if_neg hne]
      exact ih h.2 hpeer

theorem rankedCandidates_perm {peers peers' : List MeshPeer} (h : (peers.map MeshPeer.id).Nodup)
    (hperm : peers.Perm peers') (excludedPeer : Option String) :
    rankedCandidates peers' excludedPeer = rankedCandidates peers excludedPeer := by
  have hnodup' : (peers'.map MeshPeer.id).Nodup := ((hperm.map _).nodup_iff).mp h
  have hids : candidateIds peers' excludedPeer = candidateIds peers excludedPeer := by
    rw [candidateIds, candidateIds, List.toFinset_eq_of_perm _ _ (hperm.map MeshPeer.id)]
  rw [rankedCandidates, rankedCandidates, hids]
  congr 1
  refine List.map_congr_left fun id hid => ?_
  have hgiven := (Finset.mem_filter.mp (Finset.mem_ascending.mp hid)).1
  obtain ⟨peer, hpeer, rfl⟩ := List.mem_map.mp (List.mem_toFinset.mp hgiven)
  rw [candidate, candidate, firstKnownScore_of_nodup h hpeer,
    firstKnownScore_of_nodup hnodup' (hperm.mem_iff.mp hpeer)]

/-- `select_mesh_peers` is the constrained top of the peers it is given. If the ids of the peers are
distinct, it does not depend on their order. -/
theorem selectMeshPeers_isConstrainedTop (peers : List MeshPeer) (excludedPeer : Option String)
    (fanout unknownPeerReserve : ℕ) :
    IsConstrainedTop peers excludedPeer fanout unknownPeerReserve
        (selectMeshPeers peers excludedPeer fanout unknownPeerReserve) ∧
      ((peers.map MeshPeer.id).Nodup → ∀ peers', peers.Perm peers' →
        selectMeshPeers peers' excludedPeer fanout unknownPeerReserve =
          selectMeshPeers peers excludedPeer fanout unknownPeerReserve) := by
  refine ⟨isConstrainedTop_selectMeshPeers peers excludedPeer fanout unknownPeerReserve, ?_⟩
  intro hnodup peers' hperm
  rw [selectMeshPeers, selectMeshPeers, sorted_candidates_eq, sorted_candidates_eq,
    rankedCandidates_perm hnodup hperm]

/-- Two of three known peers, one of which makes room for an unknown one. -/
theorem selectMeshPeers_swapped :
    selectMeshPeers [MeshPeer.new "d", .observed "a" 9, .observed "c" 5, .observed "b" 5] none 2 1 =
        [.observed "a" 9, .new "d"] ∧
      selectMeshPeers [MeshPeer.observed "a" 9, .new "d", .observed "c" 5, .observed "b" 5] none 2 1 =
        [.observed "a" 9, .new "d"] := by
  have hselected : selectMeshPeers
      [MeshPeer.new "d", .observed "a" 9, .observed "c" 5, .observed "b" 5] none 2 1 =
        [.observed "a" 9, .new "d"] := by decide +kernel
  refine ⟨hselected, ?_⟩
  rw [← hselected]
  exact (selectMeshPeers_isConstrainedTop
    [MeshPeer.new "d", .observed "a" 9, .observed "c" 5, .observed "b" 5] none 2 1).2
    (by decide) _ (List.Perm.swap _ _ _)

end NostrPubsub
