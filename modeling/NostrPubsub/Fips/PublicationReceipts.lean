import NostrPubsub.Fips.AnonymousPublication

/-!
# What the providers decided

The first receipt of each selected provider decides. `Verdict` says what a list of receipts does to
a pending publication. `publish_inner` returns the verdict unless one of its sends is refused: that
happens when a receipt for the event was handled before it (`publishInner_reports_iff`).
-/

namespace NostrPubsub.Fips.Publishing

variable (eventId : EventId) (peers : List String)

/-! ## The verdict of a list of receipts -/

/-- A receipt of a selected provider for the event. -/
def Selected (r : Receipt) : Prop := r.eventId = eventId ∧ r.peer ∈ peers

instance (r : Receipt) : Decidable (Selected eventId peers r) :=
  inferInstanceAs (Decidable (_ ∧ _))

/-- The providers that did not decide, as long as nobody accepted and not all rejected. -/
structure Undecided (receipts : List Receipt) (providers : Finset String) : Prop where
  subset : providers ⊆ peers.toFinset
  fresh : ∀ r ∈ receipts, r.eventId = eventId → r.peer ∉ providers
  rejected : ∀ peer ∈ peers, peer ∉ providers →
    ∃ r ∈ receipts, r.eventId = eventId ∧ r.peer = peer ∧ r.accepted = false
  /-- A provider that accepted had rejected before. -/
  late : ∀ before r after, receipts = before ++ r :: after → Selected eventId peers r →
    r.accepted = true → ∃ earlier ∈ before, earlier.eventId = eventId ∧ earlier.peer = r.peer

/-- What the receipts leave of the pending publication, and what they send to its caller. -/
inductive Verdict (receipts : List Receipt) :
    Option PendingPublication → Option PublicationResult → Prop
  | pending {providers : Finset String} (h : Undecided eventId peers receipts providers) :
      Verdict receipts (some ⟨providers, true⟩) none
  | accepted {providers : Finset String} {before after : List Receipt} {r : Receipt}
      (hreceipts : receipts = before ++ r :: after) (h : Undecided eventId peers before providers)
      (hevent : r.eventId = eventId) (hpeer : r.peer ∈ providers) (haccepted : r.accepted = true) :
      Verdict receipts none (some (.ok ⟨eventId, r.peer⟩))
  | rejected {providers : Finset String} {before after : List Receipt} {r : Receipt}
      (hreceipts : receipts = before ++ r :: after) (h : Undecided eventId peers before providers)
      (hevent : r.eventId = eventId) (hpeer : providers = {r.peer}) (haccepted : r.accepted = false) :
      Verdict receipts none (some (.error (rejection r.message)))

variable {eventId peers}

theorem Undecided.nil : Undecided eventId peers [] peers.toFinset where
  subset := Finset.Subset.refl _
  fresh := nofun
  rejected := fun peer hpeer hnot => absurd (List.mem_toFinset.mpr hpeer) hnot
  late := by
    intro before r after h
    simp at h

/-- A receipt that decides nothing leaves the providers as they are. -/
theorem Undecided.concat_ignored {receipts : List Receipt} {providers : Finset String}
    (h : Undecided eventId peers receipts providers) {r : Receipt}
    (hr : r.eventId = eventId → r.peer ∉ providers) :
    Undecided eventId peers (receipts ++ [r]) providers where
  subset := h.subset
  fresh := by
    intro other hother hevent
    rcases List.mem_append.mp hother with hother | hother
    · exact h.fresh other hother hevent
    · rw [List.mem_singleton.mp hother] at hevent ⊢
      exact hr hevent
  rejected := by
    intro peer hpeer hnot
    obtain ⟨other, hother, hrest⟩ := h.rejected peer hpeer hnot
    exact ⟨other, List.mem_append_left _ hother, hrest⟩
  late := by
    intro before other after heq hselected haccepted
    rcases List.eq_nil_or_concat after with rfl | ⟨after, last, rfl⟩
    · obtain ⟨rfl, hlast⟩ := List.append_inj' heq rfl
      cases hlast
      -- the new receipt is from a selected provider that decided before
      obtain ⟨earlier, hmem, hevent, hpeer, -⟩ :=
        h.rejected r.peer hselected.2 (hr hselected.1)
      exact ⟨earlier, hmem, hevent, hpeer⟩
    · rw [List.concat_eq_append, ← List.cons_append, ← List.append_assoc] at heq
      exact h.late before other after (List.append_inj_left' heq rfl) hselected haccepted

/-- A rejection takes its provider from the undecided ones. -/
theorem Undecided.concat_rejected {receipts : List Receipt} {providers : Finset String}
    (h : Undecided eventId peers receipts providers) {r : Receipt} (hevent : r.eventId = eventId)
    (haccepted : r.accepted = false) :
    Undecided eventId peers (receipts ++ [r]) (providers.erase r.peer) where
  subset := (Finset.erase_subset _ _).trans h.subset
  fresh := by
    intro other hother hother'
    rcases List.mem_append.mp hother with hother | hother
    · exact fun hmem => h.fresh other hother hother' (Finset.mem_of_mem_erase hmem)
    · rw [List.mem_singleton.mp hother]
      exact Finset.notMem_erase _ _
  rejected := by
    intro peer hpeer hnot
    by_cases heq : peer = r.peer
    · subst heq
      exact ⟨r, by simp, hevent, rfl, haccepted⟩
    · obtain ⟨other, hother, hrest⟩ := h.rejected peer hpeer
        fun hmem => hnot (Finset.mem_erase.mpr ⟨heq, hmem⟩)
      exact ⟨other, List.mem_append_left _ hother, hrest⟩
  late := by
    intro before other after heq hselected hother
    rcases List.eq_nil_or_concat after with rfl | ⟨after, last, rfl⟩
    · obtain ⟨-, hlast⟩ := List.append_inj' heq rfl
      cases hlast
      rw [haccepted] at hother
      cases hother
    · rw [List.concat_eq_append, ← List.cons_append, ← List.append_assoc] at heq
      exact h.late before other after (List.append_inj_left' heq rfl) hselected hother

/-- Further receipts do not change a verdict. -/
theorem Verdict.concat_of_none {receipts : List Receipt} {response : Option PublicationResult}
    (h : Verdict eventId peers receipts none response) (r : Receipt) :
    Verdict eventId peers (receipts ++ [r]) none response := by
  cases h with
  | accepted hreceipts h hevent hpeer haccepted =>
    exact .accepted (by rw [hreceipts, List.append_assoc, List.cons_append]) h hevent hpeer haccepted
  | rejected hreceipts h hevent hpeer haccepted =>
    exact .rejected (by rw [hreceipts, List.append_assoc, List.cons_append]) h hevent hpeer haccepted

/-- A receipt that finds no pending publication, or none of its peer, does nothing. -/
theorem handlePublicationReceipt_ignored {r : Receipt} {pending : Publications}
    (h : ∀ operation, pending.lookup r.eventId = some operation → r.peer ∉ operation.providers) :
    handlePublicationReceipt r.peer r.eventId r.accepted r.message pending = (none, pending) := by
  rw [handlePublicationReceipt]
  split
  · rfl
  · next operation hoperation => rw [if_pos (h operation hoperation)]

/-- A receipt of a provider that did not decide yet. -/
theorem handlePublicationReceipt_decides {r : Receipt} {pending : Publications}
    {providers : Finset String} (hlookup : pending.lookup r.eventId = some ⟨providers, true⟩)
    (hpeer : r.peer ∈ providers) :
    handlePublicationReceipt r.peer r.eventId r.accepted r.message pending =
      if r.accepted = true then (some (.ok ⟨r.eventId, r.peer⟩), pending.erase r.eventId)
      else if providers.erase r.peer = ∅ then
        (some (.error (rejection r.message)), pending.erase r.eventId)
      else (none, pending.insert r.eventId ⟨providers.erase r.peer, true⟩) := by
  rw [handlePublicationReceipt]
  simp only [hlookup, hpeer, not_true_eq_false, if_false, if_true]
  by_cases haccepted : r.accepted = true
  · simp only [haccepted, true_or, if_true]
  · by_cases hlast : providers.erase r.peer = ∅
    · simp only [haccepted, hlast, or_true, if_true, if_false, Bool.false_eq_true]
    · simp only [haccepted, hlast, or_false, if_false, Bool.false_eq_true]

theorem handle_ignored {s : Publishing} {r : Receipt}
    (h : ∀ operation, s.publications.lookup r.eventId = some operation →
      r.peer ∉ operation.providers) :
    s.handle r = { s with
      receipts := if s.timedOut then s.receipts else s.receipts ++ [r] } := by
  rw [handle, handlePublicationReceipt_ignored h]

/-- `handle_publication_receipt` passes on the verdict. -/
theorem Verdict.handle {s : Publishing} {receipts : List Receipt}
    (h : Verdict eventId peers receipts (s.publications.lookup eventId) s.response)
    (honly : ∀ id ∈ s.publications, id = eventId) (r : Receipt) :
    Verdict eventId peers (receipts ++ [r]) ((s.handle r).publications.lookup eventId)
      (s.handle r).response := by
  -- A receipt counts only for its own event, while the publication is pending, and once from each
  -- peer.
  by_cases hevent : r.eventId = eventId
  · cases hlookup : s.publications.lookup eventId with
    | none =>
      rw [hlookup] at h
      have hignored : s.handle r = _ := handle_ignored (by rw [hevent, hlookup]; nofun)
      rw [hignored]
      show Verdict eventId peers _ (s.publications.lookup eventId) s.response
      rw [hlookup]
      exact h.concat_of_none r
    | some operation =>
      rw [hlookup] at h
      generalize hresponse : s.response = response at h
      cases h with
      | @pending providers h =>
        by_cases hpeer : r.peer ∈ providers
        · have hdecides := handlePublicationReceipt_decides (hevent ▸ hlookup) hpeer
          rw [Publishing.handle, hdecides]
          -- The first acceptance decides, and so does the rejection of the last provider.
          by_cases haccepted : r.accepted = true
          · simp only [haccepted, if_true, hevent, Finmap.lookup_erase]
            exact .accepted rfl h hevent hpeer haccepted
          · have hrejects : r.accepted = false := by simpa using haccepted
            by_cases hlast : providers.erase r.peer = ∅
            · simp only [hrejects, Bool.false_eq_true, if_false, hlast, if_true, hevent, Finmap.lookup_erase]
              refine .rejected rfl h hevent ?_ hrejects
              rw [← Finset.insert_erase hpeer, hlast]
              rfl
            · simp only [hrejects, Bool.false_eq_true, if_false, hlast, hevent, Finmap.lookup_insert,
                hresponse]
              exact .pending (h.concat_rejected hevent hrejects)
        · have hignored : s.handle r = _ := handle_ignored (by
            rw [hevent, hlookup]
            rintro operation ⟨⟩
            exact hpeer)
          rw [hignored]
          show Verdict eventId peers _ (s.publications.lookup eventId) s.response
          rw [hlookup, hresponse]
          exact .pending (h.concat_ignored fun _ => hpeer)
  · have hnone : s.publications.lookup r.eventId = none :=
      Finmap.lookup_eq_none.mpr fun hmem => hevent (honly _ hmem)
    have hignored : s.handle r = _ := handle_ignored (by rw [hnone]; nofun)
    rw [hignored]
    show Verdict eventId peers _ (s.publications.lookup eventId) s.response
    generalize s.publications.lookup eventId = entry at h ⊢
    generalize s.response = response at h ⊢
    cases h with
    | pending h => exact .pending (h.concat_ignored fun heq => absurd heq hevent)
    | accepted hreceipts h hevent hpeer haccepted =>
      exact (Verdict.accepted hreceipts h hevent hpeer haccepted).concat_of_none r
    | rejected hreceipts h hevent hpeer haccepted =>
      exact (Verdict.rejected hreceipts h hevent hpeer haccepted).concat_of_none r

/-! ## Runs -/

variable (eventId peers) in
/-- The publication is the only one, of the selected providers, and gone once its caller was
answered. -/
structure Registered (s : Publishing) : Prop where
  only : ∀ id ∈ s.publications, id = eventId
  answered : s.response ≠ none → s.publications.lookup eventId = none
  within : ∀ operation, s.publications.lookup eventId = some operation →
    operation.providers ⊆ peers.toFinset

variable (eventId peers) in
/-- What holds of `publish_inner` along a run: `entry` and `response` are what the receipts before
the timeout left. -/
structure Tracked (s : Publishing) (entry : Option PendingPublication)
    (response : Option PublicationResult) : Prop where
  registered : Registered eventId peers s
  verdict : Verdict eventId peers s.receipts entry response
  entry_eq : s.timedOut = false → s.publications.lookup eventId = entry ∧ s.response = response
  selected : ∀ peer ∈ s.unsent, peer ∈ peers
  sent : s.unsent = [] → s.timedOut = false → s.returned = response
  expired : s.timedOut = true → s.unsent = [] ∧
    s.returned = some (response.getD (.error (.storage "anonymous provider receipt timed out")))
  /-- A call that returns before its loop is over returns the error of a send. -/
  failed : s.unsent ≠ [] → s.returned = none ∨ s.returned = some (.error notAllowed) ∨
    ∃ error, s.returned = some (.error (storageError "queue TCP/FIPS Nostr pubsub frame" error))

theorem tracked_start : Tracked eventId peers (start eventId peers) (some ⟨peers.toFinset, true⟩) none where
  registered := by
    refine ⟨?_, fun h => absurd rfl h, ?_⟩
    · intro id hid
      exact (Finmap.mem_insert.mp hid).resolve_right Finmap.notMem_empty
    · intro operation hoperation
      rw [start, Finmap.lookup_insert] at hoperation
      cases hoperation
      exact Finset.Subset.refl _
  verdict := .pending Undecided.nil
  entry_eq := fun _ => ⟨Finmap.lookup_insert _, rfl⟩
  selected := fun _ h => h
  sent := fun _ _ => rfl
  expired := nofun
  failed := fun _ => .inl rfl

theorem settle_eq_self {s : Publishing} (h : s.unsent ≠ [] ∨ s.returned ≠ none) : s.settle = s := by
  rw [settle, if_neg]
  tauto

variable (eventId) in
/-- A send changes only what is left to send and what is returned. -/
theorem sendNext_cases (queued : Except String Unit) (s : Publishing) :
    s.sendNext eventId queued = s ∧ (s.unsent = [] ∨ s.returned ≠ none) ∨
    (∃ peer rest, s.unsent = peer :: rest ∧ s.returned = none ∧ queued = .ok () ∧
      maySendPublication eventId peer s.publications = true ∧
      s.sendNext eventId queued = { s with unsent := rest }) ∨
    ∃ peer rest result, s.unsent = peer :: rest ∧ s.returned = none ∧
      (queued ≠ .ok () ∨ maySendPublication eventId peer s.publications = false) ∧
      (result = notAllowed ∨ ∃ error,
        result = storageError "queue TCP/FIPS Nostr pubsub frame" error) ∧
      s.sendNext eventId queued = { s with returned := some (.error result) } := by
  rw [sendNext]
  split
  · next peer rest hreturned hunsent =>
    split
    · next hmay =>
      split
      · exact .inr (.inl ⟨peer, rest, hunsent, hreturned, rfl, hmay, rfl⟩)
      · next error =>
        exact .inr (.inr ⟨peer, rest, _, hunsent, hreturned, .inl nofun, .inr ⟨error, rfl⟩, rfl⟩)
    · next hmay =>
      exact .inr (.inr ⟨peer, rest, _, hunsent, hreturned, .inr (by simpa using hmay), .inl rfl,
        rfl⟩)
  · next hother =>
    refine .inl ⟨rfl, ?_⟩
    by_contra hnot
    rw [not_or, not_not] at hnot
    obtain ⟨peer, rest, hunsent⟩ := List.exists_cons_of_ne_nil hnot.1
    exact hother peer rest hnot.2 hunsent

variable {s : Publishing} {entry : Option PendingPublication}
  {response : Option PublicationResult}

/-- After the loop the call returns what is on the channel. -/
theorem tracked_settle (hregistered : Registered eventId peers s)
    (hverdict : Verdict eventId peers s.receipts entry response)
    (hentry : s.timedOut = false → s.publications.lookup eventId = entry ∧ s.response = response)
    (hselected : ∀ peer ∈ s.unsent, peer ∈ peers)
    (hsent : s.unsent = [] → s.timedOut = false → s.returned = none ∨ s.returned = response)
    (hexpired : s.timedOut = true → s.unsent = [] ∧
      s.returned = some (response.getD (.error (.storage "anonymous provider receipt timed out"))))
    (hfailed : s.unsent ≠ [] → s.returned = none ∨ s.returned = some (.error notAllowed) ∨
      ∃ error, s.returned = some (.error (storageError "queue TCP/FIPS Nostr pubsub frame" error))) :
    Tracked eventId peers s.settle entry response := by
  by_cases hsettle : s.unsent = [] ∧ s.returned = none
  · have hrunning : s.timedOut = false := by
      by_contra hnot
      have := (hexpired (by simpa using hnot)).2
      rw [hsettle.2] at this
      cases this
    rw [settle, if_pos hsettle]
    refine ⟨⟨hregistered.1, hregistered.2, hregistered.3⟩, hverdict, hentry, hselected,
      fun _ _ => (hentry hrunning).2, ?_, fun h => absurd hsettle.1 h⟩
    intro htimed
    rw [hrunning] at htimed
    cases htimed
  · rw [settle, if_neg hsettle]
    refine ⟨hregistered, hverdict, hentry, hselected, ?_, hexpired, hfailed⟩
    intro hunsent hrunning
    exact (hsent hunsent hrunning).resolve_left fun hreturned => hsettle ⟨hunsent, hreturned⟩

theorem Tracked.send (h : Tracked eventId peers s entry response) (queued : Except String Unit) :
    Tracked eventId peers (s.sendNext eventId queued).settle entry response := by
  rcases sendNext_cases eventId queued s with ⟨heq, -⟩ |
    ⟨peer, rest, hunsent, hreturned, -, -, heq⟩ |
    ⟨peer, rest, result, hunsent, hreturned, -, hresult, heq⟩
  · rw [heq]
    exact tracked_settle ⟨h.registered.1, h.registered.2, h.registered.3⟩ h.verdict h.entry_eq
      h.selected (fun hu hr => .inr (h.sent hu hr)) h.expired h.failed
  · have hrunning : s.timedOut = true → False := by
      intro htimed
      have := (h.expired htimed).1
      rw [hunsent] at this
      cases this
    rw [heq]
    exact tracked_settle ⟨h.registered.1, h.registered.2, h.registered.3⟩ h.verdict h.entry_eq
      (fun q hq => h.selected q (hunsent ▸ List.mem_cons_of_mem peer hq))
      (fun _ _ => .inl hreturned) (fun htimed => (hrunning htimed).elim) (fun _ => .inl hreturned)
  · have hne : s.unsent ≠ [] := by
      rw [hunsent]
      exact List.cons_ne_nil _ _
    have hrunning : s.timedOut = true → False := fun htimed => hne (h.expired htimed).1
    rw [heq]
    refine tracked_settle ⟨h.registered.1, h.registered.2, h.registered.3⟩ h.verdict h.entry_eq
      h.selected (fun hu => absurd hu hne) (fun htimed => (hrunning htimed).elim) ?_
    rintro -
    rcases hresult with rfl | ⟨error, rfl⟩
    · exact .inr (.inl rfl)
    · exact .inr (.inr ⟨error, rfl⟩)

theorem Registered.handle (h : Registered eventId peers s) (r : Receipt) :
    Registered eventId peers (s.handle r) := by
  by_cases hignored : ∀ operation, s.publications.lookup r.eventId = some operation →
      r.peer ∉ operation.providers
  · rw [handle_ignored hignored]
    exact ⟨h.only, h.answered, h.within⟩
  · push Not at hignored
    obtain ⟨operation, hoperation, hpeer⟩ := hignored
    obtain rfl : r.eventId = eventId := h.only _ (Finmap.mem_of_lookup_eq_some hoperation)
    have hresponse : s.response = none := by
      by_contra hsome
      rw [h.answered hsome] at hoperation
      cases hoperation
    simp only [Publishing.handle, handlePublicationReceipt, hoperation, hpeer, not_true_eq_false,
      if_false]
    split
    · refine ⟨fun id hid => h.only id (Finmap.mem_erase.mp hid).2, fun _ => Finmap.lookup_erase _ _, ?_⟩
      intro other hother
      rw [Finmap.lookup_erase] at hother
      cases hother
    · refine ⟨?_, fun hsome => absurd hresponse hsome, ?_⟩
      · intro id hid
        rcases Finmap.mem_insert.mp hid with rfl | hid
        · rfl
        · exact h.only id hid
      · intro other hother
        rw [Finmap.lookup_insert] at hother
        cases hother
        exact (Finset.erase_subset _ _).trans (h.within operation hoperation)

/-- What was sent stays: the publication is no longer pending. -/
theorem Registered.response_handle (h : Registered eventId peers s) {result : PublicationResult}
    (hresponse : s.response = some result) (r : Receipt) :
    (s.handle r).response = some result := by
  rw [handle_ignored, hresponse]
  intro operation hoperation
  obtain rfl : r.eventId = eventId := h.only _ (Finmap.mem_of_lookup_eq_some hoperation)
  rw [h.answered (by rw [hresponse]; nofun)] at hoperation
  cases hoperation

theorem Tracked.receipt (h : Tracked eventId peers s entry response) (r : Receipt) :
    ∃ entry' response', Tracked eventId peers (s.handle r).settle entry' response' := by
  cases htimed : s.timedOut with
  | true =>
    have hreceipts : (s.handle r).receipts = s.receipts := if_pos htimed
    refine ⟨entry, response, tracked_settle (h.registered.handle r) (hreceipts ▸ h.verdict) ?_
      h.selected ?_ h.expired h.failed⟩
    · intro hrunning
      rw [show (s.handle r).timedOut = s.timedOut from rfl, htimed] at hrunning
      cases hrunning
    · intro _ hrunning
      rw [show (s.handle r).timedOut = s.timedOut from rfl, htimed] at hrunning
      cases hrunning
  | false =>
    obtain ⟨rfl, rfl⟩ := h.entry_eq htimed
    have hreceipts : (s.handle r).receipts = s.receipts ++ [r] := if_neg (by simp [htimed])
    refine ⟨_, _, tracked_settle (h.registered.handle r) (hreceipts ▸ h.verdict.handle h.registered.only r)
      (fun _ => ⟨rfl, rfl⟩) h.selected ?_ ?_ h.failed⟩
    · intro hunsent _
      have hreturned : s.returned = s.response := h.sent hunsent htimed
      cases hresponse : s.response with
      | none => exact .inl (hreturned.trans hresponse)
      | some result =>
        refine .inr (hreturned.trans ?_)
        rw [h.registered.response_handle hresponse r, hresponse]
    · intro hnot
      rw [show (s.handle r).timedOut = s.timedOut from rfl, htimed] at hnot
      cases hnot

theorem Tracked.expire (h : Tracked eventId peers s entry response) :
    Tracked eventId peers s.expire entry response := by
  rw [Publishing.expire]
  split
  · next hunsent =>
    refine ⟨⟨h.registered.1, h.registered.2, h.registered.3⟩, h.verdict, nofun, h.selected, nofun, ?_,
      fun hne => absurd hunsent hne⟩
    rintro -
    refine ⟨hunsent, ?_⟩
    cases htimed : s.timedOut with
    | true =>
      simp only [(h.expired htimed).2]
    | false =>
      simp only [h.sent hunsent htimed]
      cases response <;> rfl
  · exact h

theorem Tracked.step (h : Tracked eventId peers s entry response) (action : PublishAction) :
    ∃ entry' response', Tracked eventId peers (step eventId action s).2 entry' response' := by
  cases action with
  | send queued => exact ⟨entry, response, h.send queued⟩
  | receipt r => exact h.receipt r
  | timeout => exact ⟨entry, response, h.expire⟩

variable (eventId peers) in
theorem exists_tracked (actions : List PublishAction) :
    ∃ entry response, Tracked eventId peers (after eventId peers actions) entry response := by
  refine Mealy.invariant (I := fun s => ∃ entry response, Tracked eventId peers s entry response)
    ?_ ⟨_, _, tracked_start⟩ actions
  rintro action s ⟨entry, response, h⟩
  exact h.step action

/-! ## Sends and receipts -/

variable (eventId peers) in
/-- Every send finds room in the transport queue, and comes before every acceptance of a selected
provider and before every receipt of the provider it goes to. `unsent` and `receipts` are what is
left to send and what was handled so far. -/
def SendsClear : List String → List Receipt → List PublishAction → Prop
  | _, _, [] => True
  | unsent, receipts, .receipt r :: rest => SendsClear unsent (receipts ++ [r]) rest
  | unsent, receipts, .timeout :: rest => SendsClear unsent receipts rest
  | [], receipts, .send _ :: rest => SendsClear [] receipts rest
  | peer :: unsent, receipts, .send queued :: rest =>
    queued = .ok () ∧
      (∀ r ∈ receipts, Selected eventId peers r → r.accepted = false ∧ r.peer ≠ peer) ∧
      SendsClear unsent receipts rest

variable (eventId peers) in
/-- The first acceptance of a selected provider. -/
def firstAcceptance (receipts : List Receipt) : Option Receipt :=
  receipts.find? fun r => Selected eventId peers r ∧ r.accepted

variable (eventId peers) in
/-- The first selected provider that accepted had not rejected before. -/
def Consistent (receipts : List Receipt) : Prop :=
  ∀ before r after, receipts = before ++ r :: after →
    firstAcceptance eventId peers receipts = some r → firstAcceptance eventId peers before = none →
    ∀ earlier ∈ before, earlier.eventId = eventId → earlier.peer ≠ r.peer

theorem firstAcceptance_eq_some {receipts : List Receipt} {r : Receipt}
    (h : firstAcceptance eventId peers receipts = some r) :
    Selected eventId peers r ∧ r.accepted = true ∧ ∃ before after, receipts = before ++ r :: after ∧
      firstAcceptance eventId peers before = none := by
  obtain ⟨hr, before, after, heq, hbefore⟩ := List.find?_eq_some_iff_append.mp h
  have hr' := of_decide_eq_true hr
  refine ⟨hr'.1, hr'.2, before, after, heq, ?_⟩
  exact List.find?_eq_none.mpr fun other hother => by
    simpa [imp_iff_not_or] using hbefore other hother

theorem firstAcceptance_eq_none {receipts : List Receipt}
    (h : firstAcceptance eventId peers receipts = none) {r : Receipt} (hr : r ∈ receipts)
    (hselected : Selected eventId peers r) : r.accepted = false := by
  have := List.find?_eq_none.mp h r hr
  simpa [hselected] using this

/-- Two places in one list: they are the same, or one comes first. -/
theorem split_cases {α : Type} {a b c d : List α} {x y : α} (h : a ++ x :: b = c ++ y :: d) :
    (a = c ∧ x = y) ∨ (∃ e, c = a ++ x :: e) ∨ ∃ e, a = c ++ y :: e := by
  rcases List.append_eq_append_iff.mp h with ⟨e, rfl, he⟩ | ⟨e, rfl, he⟩
  · cases e with
    | nil =>
      rw [List.nil_append, List.cons.injEq] at he
      exact .inl ⟨(List.append_nil a).symm, he.1⟩
    | cons z e =>
      rw [List.cons_append, List.cons.injEq] at he
      exact .inr (.inl ⟨e, by rw [he.1]⟩)
  · cases e with
    | nil =>
      rw [List.nil_append, List.cons.injEq] at he
      exact .inl ⟨List.append_nil c, he.1.symm⟩
    | cons z e =>
      rw [List.cons_append, List.cons.injEq] at he
      exact .inr (.inr ⟨e, by rw [he.1]⟩)

/-- While nothing is decided, nobody accepted whose first receipt that was. -/
theorem Undecided.firstAcceptance {receipts : List Receipt} {providers : Finset String}
    (h : Undecided eventId peers receipts providers) (hconsistent : Consistent eventId peers receipts) :
    firstAcceptance eventId peers receipts = none := by
  by_contra hsome
  obtain ⟨r, hr⟩ := Option.ne_none_iff_exists'.mp hsome
  obtain ⟨hselected, haccepted, before, after, heq, hbefore⟩ := firstAcceptance_eq_some hr
  obtain ⟨earlier, hmem, hevent, hpeer⟩ := h.late before r after heq hselected haccepted
  exact hconsistent before r after heq hr hbefore earlier hmem hevent hpeer

theorem Consistent.of_append {a b : List Receipt} (h : Consistent eventId peers (a ++ b)) :
    Consistent eventId peers a := by
  intro before r after heq hfirst hbefore
  refine h before r (after ++ b) ?_ ?_ hbefore
  · rw [heq, List.append_assoc, List.cons_append]
  · rw [firstAcceptance] at hfirst ⊢
    rw [List.find?_append, hfirst]
    rfl

/-- The verdict names the first provider that accepted. -/
theorem Verdict.eq_ok {receipts : List Receipt} {entry : Option PendingPublication}
    {response : Option PublicationResult} (h : Verdict eventId peers receipts entry response)
    (hconsistent : Consistent eventId peers receipts) {r : Receipt}
    (hr : firstAcceptance eventId peers receipts = some r) :
    response = some (.ok ⟨eventId, r.peer⟩) := by
  obtain ⟨hselected, haccepted, before, after, heq, hbefore⟩ := firstAcceptance_eq_some hr
  have hnew := hconsistent before r after heq hr hbefore
  cases h with
  | pending h =>
    rw [h.firstAcceptance hconsistent] at hr
    cases hr
  | @accepted providers before' after' r' heq' h hevent hpeer haccepted' =>
    have hselected' : Selected eventId peers r' :=
      ⟨hevent, List.mem_toFinset.mp (h.subset hpeer)⟩
    rcases split_cases (heq'.symm.trans heq) with ⟨-, rfl⟩ | ⟨e, rfl⟩ | ⟨e, rfl⟩
    · rfl
    · rw [firstAcceptance_eq_none hbefore (by simp) hselected'] at haccepted'
      cases haccepted'
    · obtain ⟨earlier, hmem, hearlier, hsame⟩ := h.late before r e rfl hselected haccepted
      exact absurd hsame (hnew earlier hmem hearlier)
  | @rejected providers before' after' r' heq' h hevent hpeer haccepted' =>
    rcases split_cases (heq'.symm.trans heq) with ⟨-, rfl⟩ | ⟨e, rfl⟩ | ⟨e, rfl⟩
    · rw [haccepted'] at haccepted
      cases haccepted
    · -- the provider that accepted had rejected already
      by_cases hsame : r'.peer = r.peer
      · exact absurd hsame (hnew r' (by simp) hevent)
      · obtain ⟨earlier, hmem, hearlier, hpeer', -⟩ := h.rejected r.peer hselected.2 (by
          rw [hpeer, Finset.mem_singleton]
          exact Ne.symm hsame)
        exact absurd hpeer' (hnew earlier (List.mem_append_left _ hmem) hearlier)
    · obtain ⟨earlier, hmem, hearlier, hsame⟩ := h.late before r e rfl hselected haccepted
      exact absurd hsame (hnew earlier hmem hearlier)

/-- If the verdict names the first provider that accepted, that provider had not rejected. -/
theorem Verdict.consistent {receipts : List Receipt} {entry : Option PendingPublication} {r : Receipt}
    (h : Verdict eventId peers receipts entry (some (.ok ⟨eventId, r.peer⟩)))
    (hr : firstAcceptance eventId peers receipts = some r) : Consistent eventId peers receipts := by
  intro before r₁ after heq hfirst hbefore earlier hmem hearlier hsame
  obtain rfl : r₁ = r := Option.some.inj (hfirst.symm.trans hr)
  generalize hresult : (some (.ok ⟨eventId, r₁.peer⟩) : Option PublicationResult) = result at h
  cases h with
  | pending h => cases hresult
  | @accepted providers before' after' r' heq' h hevent hpeer haccepted' =>
    have hpeers : r₁.peer = r'.peer := by
      injection hresult with hresult
      injection hresult with hresult
      injection hresult
    have hselected' : Selected eventId peers r' :=
      ⟨hevent, List.mem_toFinset.mp (h.subset hpeer)⟩
    rcases split_cases (heq'.symm.trans heq) with ⟨rfl, rfl⟩ | ⟨e, rfl⟩ | ⟨e, rfl⟩
    · exact h.fresh earlier hmem hearlier (hsame ▸ hpeer)
    · rw [firstAcceptance_eq_none hbefore (by simp) hselected'] at haccepted'
      cases haccepted'
    · exact h.fresh r₁ (by simp) (firstAcceptance_eq_some hr).1.1 (hpeers ▸ hpeer)
  | rejected => cases hresult

/-! ## Sends that are refused -/

theorem sendsClear_nil (receipts : List Receipt) (actions : List PublishAction) :
    SendsClear eventId peers [] receipts actions := by
  induction actions generalizing receipts with
  | nil => trivial
  | cons action rest ih =>
    cases action with
    | send queued => exact ih receipts
    | receipt r => exact ih (receipts ++ [r])
    | timeout => exact ih receipts

@[simp]
theorem unsent_settle (s : Publishing) : s.settle.unsent = s.unsent := by
  rw [settle]
  split <;> rfl

@[simp]
theorem receipts_settle (s : Publishing) : s.settle.receipts = s.receipts := by
  rw [settle]
  split <;> rfl

@[simp]
theorem unsent_expire (s : Publishing) : s.expire.unsent = s.unsent := by
  rw [expire]
  split <;> rfl

@[simp]
theorem receipts_expire (s : Publishing) : s.expire.receipts = s.receipts := by
  rw [expire]
  split <;> rfl

/-- A provider may be sent to exactly if nothing is decided and it sent no receipt. -/
theorem Tracked.maySend_iff (h : Tracked eventId peers s entry response) {peer : String}
    {rest : List String} (hunsent : s.unsent = peer :: rest)
    (hconsistent : Consistent eventId peers s.receipts) :
    maySendPublication eventId peer s.publications = true ↔
      ∀ r ∈ s.receipts, Selected eventId peers r → r.accepted = false ∧ r.peer ≠ peer := by
  have hpeer : peer ∈ peers := h.selected peer (hunsent ▸ List.mem_cons_self)
  -- Something is left to send, so the operation has not timed out.
  have hrunning : s.timedOut = false := by
    by_contra htimed
    have := (h.expired (by simpa using htimed)).1
    rw [hunsent] at this
    cases this
  obtain ⟨hlookup, -⟩ := h.entry_eq hrunning
  have hverdict := h.verdict
  rw [maySendPublication, hlookup]
  cases hverdict with
  | @pending providers hu =>
    have hnone := hu.firstAcceptance hconsistent
    simp only [Option.any_some, decide_eq_true_eq]
    constructor
    · intro hmem r hr hselected
      refine ⟨firstAcceptance_eq_none hnone hr hselected, ?_⟩
      rintro rfl
      exact hu.fresh r hr hselected.1 hmem
    · intro hclear
      by_contra hnot
      obtain ⟨r, hr, hevent, rfl, -⟩ := hu.rejected peer hpeer hnot
      exact (hclear r hr ⟨hevent, hpeer⟩).2 rfl
  | @accepted providers before after r heq hu hevent hmem haccepted =>
    refine ⟨nofun, fun hclear => ?_⟩
    have hr : r ∈ s.receipts := by simp [heq]
    have := (hclear r hr ⟨hevent, List.mem_toFinset.mp (hu.subset hmem)⟩).1
    rw [haccepted] at this
    cases this
  | @rejected providers before after r heq hu hevent hmem haccepted =>
    refine ⟨nofun, fun hclear => ?_⟩
    have hr : r ∈ s.receipts := by simp [heq]
    by_cases hsame : r.peer = peer
    · subst hsame
      exact absurd rfl (hclear r hr ⟨hevent, hpeer⟩).2
    · obtain ⟨earlier, hearlier, hevent', rfl, -⟩ := hu.rejected peer hpeer (by
        rw [hmem, Finset.mem_singleton]
        exact Ne.symm hsame)
      have hearlier' : earlier ∈ s.receipts := by simp [heq, hearlier]
      exact absurd rfl (hclear earlier hearlier' ⟨hevent', hpeer⟩).2

theorem consistent_of_clear {receipts : List Receipt} {peer : String}
    (h : ∀ r ∈ receipts, Selected eventId peers r → r.accepted = false ∧ r.peer ≠ peer) :
    Consistent eventId peers receipts := by
  intro before r after heq hfirst
  obtain ⟨hselected, haccepted, -⟩ := firstAcceptance_eq_some hfirst
  rw [(h r (by simp [heq]) hselected).1] at haccepted
  cases haccepted

/-- The call is in its loop or through with it. -/
def Going (s : Publishing) : Prop := s.unsent = [] ∨ s.returned = none

theorem Going.settle (h : s.Going) : s.settle.Going := by
  rw [Publishing.settle]
  split
  · next hunsent => exact .inl hunsent.1
  · exact h

theorem Going.expire (h : s.Going) : s.expire.Going := by
  rw [Publishing.expire]
  split
  · next hunsent => exact .inl hunsent
  · exact h

/-- The receipts of a further action, as the condition on the sends counts them. -/
theorem Tracked.sendsClear_handle (h : Tracked eventId peers s entry response) {r : Receipt}
    {actions : List PublishAction} :
    SendsClear eventId peers s.unsent (s.handle r).receipts actions ↔
      SendsClear eventId peers s.unsent (s.receipts ++ [r]) actions := by
  cases htimed : s.timedOut with
  | false => rw [show (s.handle r).receipts = s.receipts ++ [r] from if_neg (by simp [htimed])]
  | true =>
    rw [(h.expired htimed).1]
    exact iff_of_true (sendsClear_nil _ _) (sendsClear_nil _ _)

/-- Sends that are clear of receipts go out. -/
theorem Tracked.going_after (h : Tracked eventId peers s entry response) (hgoing : s.Going)
    {actions : List PublishAction}
    (hclear : SendsClear eventId peers s.unsent s.receipts actions) :
    (Mealy.after (Publishing.step eventId) s actions).Going := by
  induction actions generalizing s entry response with
  | nil => exact hgoing
  | cons action rest ih =>
    cases action with
    | send queued =>
      show (Mealy.after _ (s.sendNext eventId queued).settle rest).Going
      have hnext := h.send queued
      rcases sendNext_cases eventId queued s with ⟨heq, hstay⟩ |
        ⟨peer, unsent, hunsent, hreturned, -, -, heq⟩ |
        ⟨peer, unsent, result, hunsent, -, hno, -, heq⟩
      · have hunsent : s.unsent = [] := by
          rcases hgoing with hunsent | hreturned
          · exact hunsent
          · exact hstay.resolve_right (not_not.mpr hreturned)
        rw [heq] at hnext ⊢
        refine ih hnext hgoing.settle ?_
        rw [unsent_settle, hunsent]
        exact sendsClear_nil _ _
      · rw [hunsent] at hclear
        rw [heq] at hnext ⊢
        refine ih hnext (Going.settle (.inr hreturned)) ?_
        rw [unsent_settle, receipts_settle]
        exact hclear.2.2
      · -- the send failed, or was to a provider that may not be sent to: clear sends exclude both
        rw [hunsent] at hclear
        have hmay := (h.maySend_iff hunsent (consistent_of_clear hclear.2.1)).mpr hclear.2.1
        rcases hno with hno | hno
        · exact absurd hclear.1 hno
        · rw [hmay] at hno
          cases hno
    | receipt r =>
      show (Mealy.after _ (s.handle r).settle rest).Going
      obtain ⟨entry', response', hnext⟩ := h.receipt r
      refine ih hnext (Going.settle hgoing) ?_
      rw [unsent_settle, receipts_settle]
      rw [SendsClear] at hclear
      exact h.sendsClear_handle.mpr hclear
    | timeout =>
      show (Mealy.after _ s.expire rest).Going
      refine ih h.expire hgoing.expire ?_
      rw [unsent_expire, receipts_expire]
      rw [SendsClear] at hclear
      exact hclear

theorem sendNext_of_returned (h : s.returned ≠ none) (queued : Except String Unit) :
    s.sendNext eventId queued = s := by
  rcases sendNext_cases eventId queued s with ⟨heq, -⟩ | ⟨_, _, _, hnone, -⟩ | ⟨_, _, _, _, hnone, -⟩
  · exact heq
  · exact absurd hnone h
  · exact absurd hnone h

/-- What was returned stays, and with it what was left to send. -/
theorem step_of_returned {result : PublicationResult} (h : s.returned = some result)
    (action : PublishAction) :
    (Publishing.step eventId action s).2.returned = some result ∧
      (Publishing.step eventId action s).2.unsent = s.unsent := by
  have hne : s.returned ≠ none := by rw [h]; nofun
  cases action with
  | send queued =>
    show (s.sendNext eventId queued).settle.returned = _ ∧ (s.sendNext eventId queued).settle.unsent = _
    rw [sendNext_of_returned hne, settle_eq_self (.inr hne)]
    exact ⟨h, rfl⟩
  | receipt r =>
    have hstays : (s.handle r).settle = s.handle r := settle_eq_self (.inr hne)
    show (s.handle r).settle.returned = _ ∧ (s.handle r).settle.unsent = _
    rw [hstays]
    exact ⟨h, rfl⟩
  | timeout =>
    refine ⟨?_, unsent_expire s⟩
    show s.expire.returned = _
    rw [Publishing.expire]
    split
    · rw [h]
    · exact h

variable (eventId) in
theorem after_of_returned {result : PublicationResult} (h : s.returned = some result)
    (actions : List PublishAction) :
    (Mealy.after (Publishing.step eventId) s actions).returned = some result ∧
      (Mealy.after (Publishing.step eventId) s actions).unsent = s.unsent :=
  Mealy.invariant
    (I := fun t : Publishing => t.returned = some result ∧ t.unsent = s.unsent)
    (fun action _ ht => ⟨(step_of_returned ht.1 action).1,
      (step_of_returned ht.1 action).2.trans ht.2⟩) ⟨h, rfl⟩ actions

variable (eventId) in
theorem receipts_after (s : Publishing) (actions : List PublishAction) :
    s.receipts <+: (Mealy.after (Publishing.step eventId) s actions).receipts := by
  refine Mealy.invariant (I := fun t : Publishing => s.receipts <+: t.receipts) ?_
    (List.prefix_refl _) actions
  intro action t ht
  refine ht.trans ?_
  cases action with
  | send queued =>
    show t.receipts <+: (t.sendNext eventId queued).settle.receipts
    rw [receipts_settle]
    rcases sendNext_cases eventId queued t with ⟨heq, -⟩ | ⟨_, _, -, -, -, -, heq⟩ |
      ⟨_, _, _, -, -, -, -, heq⟩ <;> rw [heq]
  | receipt r =>
    show t.receipts <+: (t.handle r).settle.receipts
    rw [receipts_settle, Publishing.handle]
    show t.receipts <+: if t.timedOut then t.receipts else t.receipts ++ [r]
    split
    · exact List.prefix_refl _
    · exact List.prefix_append _ _
  | timeout =>
    show t.receipts <+: t.expire.receipts
    rw [receipts_expire]

/-- A loop that came to its end had sends that were clear of receipts. -/
theorem Tracked.sendsClear_of_unsent (h : Tracked eventId peers s entry response)
    {actions : List PublishAction}
    (hunsent : (Mealy.after (Publishing.step eventId) s actions).unsent = [])
    (hconsistent : Consistent eventId peers
      (Mealy.after (Publishing.step eventId) s actions).receipts) :
    SendsClear eventId peers s.unsent s.receipts actions := by
  induction actions generalizing s entry response with
  | nil => trivial
  | cons action rest ih =>
    have hhere : Consistent eventId peers s.receipts := by
      obtain ⟨more, hmore⟩ := receipts_after eventId s (action :: rest)
      rw [← hmore] at hconsistent
      exact hconsistent.of_append
    cases action with
    | send queued =>
      have hnext := ih (h.send queued) hunsent hconsistent
      rw [unsent_settle, receipts_settle] at hnext
      rcases sendNext_cases eventId queued s with ⟨heq, hstay⟩ |
        ⟨peer, unsent, hunsent', -, hqueued, hmay, heq⟩ |
        ⟨peer, unsent, result, hunsent', -, -, -, heq⟩
      · rw [heq] at hnext
        cases hs : s.unsent with
        | nil => exact sendsClear_nil _ _
        | cons peer unsent =>
          -- the call returned while there was something left to send
          have hreturned := hstay.resolve_left (by rw [hs]; exact List.cons_ne_nil _ _)
          obtain ⟨result, hresult⟩ := Option.ne_none_iff_exists'.mp hreturned
          rw [(after_of_returned eventId hresult (.send queued :: rest)).2, hs] at hunsent
          cases hunsent
      · rw [heq] at hnext
        rw [hunsent']
        exact ⟨hqueued, (h.maySend_iff hunsent' hhere).mp hmay, hnext⟩
      · have hreturned : (s.sendNext eventId queued).settle.returned = some (.error result) := by
          rw [heq, settle_eq_self (.inr (Option.some_ne_none _))]
        have hstuck : (s.sendNext eventId queued).settle.unsent = [] :=
          (after_of_returned eventId hreturned rest).2.symm.trans hunsent
        rw [unsent_settle, heq, show s.unsent = _ from hunsent'] at hstuck
        cases hstuck
    | receipt r =>
      obtain ⟨entry', response', hnext⟩ := h.receipt r
      have := ih hnext hunsent hconsistent
      rw [unsent_settle, receipts_settle] at this
      rw [SendsClear]
      exact h.sendsClear_handle.mp this
    | timeout =>
      have hnext := ih h.expire hunsent hconsistent
      rw [unsent_expire, receipts_expire] at hnext
      rw [SendsClear]
      exact hnext

/-! ## What is returned -/

theorem rejection_ne_storageError (message error : String) :
    rejection message ≠ storageError "queue TCP/FIPS Nostr pubsub frame" error := by
  intro h
  have hheads := congrArg String.toList (PubsubError.storage.inj h)
  simp [toString] at hheads

theorem rejection_ne_timeout (message : String) :
    rejection message ≠ .storage "anonymous provider receipt timed out" := by
  intro h
  have hheads := congrArg String.toList (PubsubError.storage.inj h)
  simp [toString] at hheads

variable (eventId peers) in
/-- `publish_inner` reports what the providers decided. -/
structure Reports (s : Publishing) : Prop where
  /-- If a selected provider accepted before the timeout, the call returns the first one. -/
  accepts : ∀ r, firstAcceptance eventId peers s.receipts = some r →
    s.returned = some (.ok ⟨eventId, r.peer⟩)
  /-- If the call returns the rejection, all selected providers rejected. -/
  rejects : ∀ message, s.returned = some (.error (rejection message)) → ∀ peer ∈ peers,
    ∃ r ∈ s.receipts, r.eventId = eventId ∧ r.peer = peer ∧ r.accepted = false
  /-- Other receipts have no effect. -/
  ignores : ∀ r, ¬ Selected eventId peers r →
    s.handle r = { s with receipts := if s.timedOut then s.receipts else s.receipts ++ [r] }
  /-- Nothing changes a result that was sent or returned. -/
  keeps : ∀ later result,
    (s.response = some result →
      (Mealy.after (Publishing.step eventId) s later).response = some result) ∧
    (s.returned = some result →
      (Mealy.after (Publishing.step eventId) s later).returned = some result)

theorem Tracked.returned_eq (h : Tracked eventId peers s entry response) (hunsent : s.unsent = [])
    {result : PublicationResult} (hresponse : response = some result) :
    s.returned = some result := by
  cases htimed : s.timedOut with
  | false => rw [h.sent hunsent htimed, hresponse]
  | true => rw [(h.expired htimed).2, hresponse, Option.getD_some]

/-- A result other than an error of a send or of the timeout is the verdict. -/
theorem Tracked.response_eq (h : Tracked eventId peers s entry response)
    {result : PublicationResult} (hreturned : s.returned = some result)
    (hsend : result ≠ .error notAllowed)
    (hqueue : ∀ error, result ≠ .error (storageError "queue TCP/FIPS Nostr pubsub frame" error))
    (htimeout : result ≠ .error (.storage "anonymous provider receipt timed out")) :
    s.unsent = [] ∧ response = some result := by
  have hunsent : s.unsent = [] := by
    by_contra hne
    rcases h.failed hne with hnone | hfailed | ⟨error, hfailed⟩
    · rw [hreturned] at hnone
      cases hnone
    · exact hsend (Option.some.inj (hreturned.symm.trans hfailed))
    · exact hqueue error (Option.some.inj (hreturned.symm.trans hfailed))
  refine ⟨hunsent, ?_⟩
  cases htimed : s.timedOut with
  | false => rw [← h.sent hunsent htimed, hreturned]
  | true =>
    have hresult := (h.expired htimed).2
    cases response with
    | none => exact absurd (Option.some.inj (hreturned.symm.trans hresult)) htimeout
    | some other => rw [← hreturned, hresult, Option.getD_some]

theorem Tracked.rejects (h : Tracked eventId peers s entry response) {message : String}
    (hreturned : s.returned = some (.error (rejection message))) {peer : String}
    (hpeer : peer ∈ peers) :
    ∃ r ∈ s.receipts, r.eventId = eventId ∧ r.peer = peer ∧ r.accepted = false := by
  obtain ⟨-, hresponse⟩ := h.response_eq hreturned
    (fun heq => PubsubError.noConfusion (Except.error.inj heq))
    (fun error heq => rejection_ne_storageError message error (Except.error.inj heq))
    (fun heq => rejection_ne_timeout message (Except.error.inj heq))
  have hverdict := h.verdict
  rw [hresponse] at hverdict
  generalize hresult : (some (.error (rejection message)) : Option PublicationResult) = result
    at hverdict
  cases hverdict with
  | pending => cases hresult
  | accepted => cases hresult
  | @rejected providers before after r heq hu hevent hmem haccepted =>
    by_cases hsame : r.peer = peer
    · exact ⟨r, by simp [heq], hevent, hsame, haccepted⟩
    · obtain ⟨earlier, hearlier, hrest⟩ := hu.rejected peer hpeer (by
        rw [hmem, Finset.mem_singleton]
        exact Ne.symm hsame)
      exact ⟨earlier, by simp [heq, hearlier], hrest⟩

theorem Registered.ignores (h : Registered eventId peers s) {r : Receipt}
    (hr : ¬ Selected eventId peers r) :
    s.handle r = { s with receipts := if s.timedOut then s.receipts else s.receipts ++ [r] } := by
  refine handle_ignored ?_
  intro operation hoperation hmem
  have hevent : r.eventId = eventId := h.only _ (Finmap.mem_of_lookup_eq_some hoperation)
  rw [hevent] at hoperation
  exact hr ⟨hevent, List.mem_toFinset.mp (h.within operation hoperation hmem)⟩

theorem response_settle (s : Publishing) : s.settle.response = s.response := by
  rw [settle]
  split <;> rfl

theorem Tracked.response_after (h : Tracked eventId peers s entry response)
    {result : PublicationResult} (hresponse : s.response = some result)
    (later : List PublishAction) :
    (Mealy.after (Publishing.step eventId) s later).response = some result := by
  induction later generalizing s entry response with
  | nil => exact hresponse
  | cons action rest ih =>
    rw [Mealy.after_cons]
    obtain ⟨entry', response', hnext⟩ := h.step action
    refine ih hnext ?_
    cases action with
    | send queued =>
      show (s.sendNext eventId queued).settle.response = _
      rw [response_settle]
      rcases sendNext_cases eventId queued s with ⟨heq, -⟩ | ⟨_, _, -, -, -, -, heq⟩ |
        ⟨_, _, _, -, -, -, -, heq⟩ <;> rw [heq] <;> exact hresponse
    | receipt r =>
      show (s.handle r).settle.response = _
      rw [response_settle]
      exact h.registered.response_handle hresponse r
    | timeout =>
      show s.expire.response = _
      rw [Publishing.expire]
      split <;> exact hresponse

/-- `publish_inner` reports what the providers decided exactly if no selected provider accepts
before the timeout, or if every send finds room in the transport queue and comes before any
acceptance and before any receipt of its provider, and the first provider that accepts had not
rejected before. -/
theorem publishInner_reports_iff (eventId : EventId) (peers : List String)
    (actions : List PublishAction)
    (hdone : (after eventId peers actions).unsent = [] ∨ (after eventId peers actions).returned ≠ none) :
    Reports eventId peers (after eventId peers actions) ↔
      firstAcceptance eventId peers (after eventId peers actions).receipts = none ∨
      SendsClear eventId peers peers [] actions ∧
        Consistent eventId peers (after eventId peers actions).receipts := by
  obtain ⟨entry, response, h⟩ := exists_tracked eventId peers actions
  constructor
  · intro hreports
    cases hfirst : firstAcceptance eventId peers (after eventId peers actions).receipts with
    | none => exact .inl rfl
    | some r =>
      obtain ⟨hunsent, hresponse⟩ := h.response_eq (hreports.accepts r hfirst) nofun nofun nofun
      have hverdict := h.verdict
      rw [hresponse] at hverdict
      have hconsistent := hverdict.consistent hfirst
      exact .inr ⟨tracked_start.sendsClear_of_unsent hunsent hconsistent, hconsistent⟩
  · intro hcondition
    refine ⟨?_, fun message hreturned peer hpeer => h.rejects hreturned hpeer,
      fun r hr => h.registered.ignores hr, ?_⟩
    · intro r hr
      rcases hcondition with hnone | ⟨hclear, hconsistent⟩
      · rw [hnone] at hr
        cases hr
      · have hgoing : (after eventId peers actions).Going :=
          tracked_start.going_after (.inr rfl) hclear
        have hunsent : (after eventId peers actions).unsent = [] := by
          rcases hgoing with hunsent | hreturned
          · exact hunsent
          · exact hdone.resolve_right (not_not.mpr hreturned)
        exact h.returned_eq hunsent (h.verdict.eq_ok hconsistent hr)
    · exact fun later result => ⟨fun hresponse => h.response_after hresponse later,
        fun hreturned => (after_of_returned eventId hreturned later).1⟩

/-- Two providers are sent to, and the first accepts. -/
def acceptedLater : List PublishAction :=
  [.send (.ok ()), .send (.ok ()), .receipt ⟨"alice", noteA.id, true, ""⟩, .timeout]

theorem publishInner_reports_two :
    Reports noteA.id ["alice", "bob"] (after noteA.id ["alice", "bob"] acceptedLater) := by
  refine (publishInner_reports_iff noteA.id ["alice", "bob"] acceptedLater (.inl rfl)).mpr (.inr ?_)
  refine ⟨⟨rfl, by simp, rfl, by simp, trivial⟩, ?_⟩
  intro before r after heq hfirst hbefore earlier hmem
  have hlength : before.length = 0 := by
    have : (before ++ r :: after).length = 1 := by rw [← heq]; rfl
    rw [List.length_append, List.length_cons] at this
    omega
  rw [List.length_eq_zero_iff.mp hlength] at hmem
  cases hmem

/-- The first provider accepts before the second one is sent to: the acceptance is on the channel,
and the call returns the error of the second send. -/
def acceptedEarly : List PublishAction :=
  [.send (.ok ()), .receipt ⟨"alice", noteA.id, true, ""⟩, .send (.ok ())]

theorem not_reports_of_acceptedEarly :
    ¬ ∀ (eventId : EventId) (peers : List String) (actions : List PublishAction), peers ≠ [] →
      ((after eventId peers actions).unsent = [] ∨ (after eventId peers actions).returned ≠ none) →
      Reports eventId peers (after eventId peers actions) := by
  intro h
  have hreturned : (after noteA.id ["alice", "bob"] acceptedEarly).returned
      = some (.error notAllowed) := by rfl
  have hreports := h noteA.id ["alice", "bob"] acceptedEarly (by simp)
    (.inr (by rw [hreturned]; exact Option.some_ne_none _))
  have haccepts := hreports.accepts ⟨"alice", noteA.id, true, ""⟩ (by decide +kernel)
  exact nomatch hreturned.symm.trans haccepts

end NostrPubsub.Fips.Publishing
