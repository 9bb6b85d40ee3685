import NostrPubsub.Query.HistoryRun

/-!
# Tokens of history pages

A process creates cursors one after another from the counter `NEXT_CURSOR_ID` and calls them
in any order. A token names one page of one cursor for the life of the process: the token of
another cursor's page, or of a page that has ended, finds no page.
-/

namespace NostrPubsub

open HistoryCursor

/-- The cursors of a process, in the order of their creation, and the counter
`NEXT_CURSOR_ID`. -/
structure CursorPool where
  nextCursorId : ℕ
  cursors : List HistoryCursor

/-- Creating a cursor, or a call on one of them. -/
inductive CursorPool.Op (nostr : NostrCrate) where
  | new (source : String) (filter : Filter) (now maxLimit : ℕ)
  | call (index : ℕ) (c : Call nostr)

namespace CursorPool

variable {nostr : NostrCrate}

/-- One operation of the process. A call returns the reply of its cursor. -/
def step : Op nostr → CursorPool → Option Reply × CursorPool
  | .new source filter now maxLimit, pool =>
    match HistoryCursor.new pool.nextCursorId source filter now maxLimit with
    | (.ok cursor, nextCursorId) => (none, { nextCursorId, cursors := pool.cursors ++ [cursor] })
    | (.error _, nextCursorId) => (none, { pool with nextCursorId })
  | .call index c, pool =>
    match pool.cursors[index]? with
    | none => (none, pool)
    | some cursor =>
      (some (HistoryCursor.call c cursor).1,
        { pool with cursors := pool.cursors.set index (HistoryCursor.call c cursor).2 })

/-- The process before its first cursor. -/
def initial : CursorPool := { nextCursorId := 1, cursors := [] }

/-- The process after a list of operations. -/
abbrev afterOps (ops : List (Op nostr)) : CursorPool := Mealy.after step initial ops

/-- The token of the active page of a cursor. -/
def activeToken (pool : CursorPool) (index : ℕ) : Option HistoryPageToken :=
  pool.cursors[index]?.bind HistoryCursor.activeToken

/-- The token was given out by `begin_page` of the cursor. -/
def Issued (ops : List (Op nostr)) (index : ℕ) (token : HistoryPageToken) : Prop :=
  ∃ before rest page, ops = before ++ .call index .beginPage :: rest
    ∧ (step (.call index .beginPage : Op nostr) (afterOps before)).1 = some (.page (some page))
    ∧ page.token = token

/-- The page of the token was active at the cursor and is so no longer. -/
def Ended (ops : List (Op nostr)) (index : ℕ) (token : HistoryPageToken) : Prop :=
  ∃ before op rest, ops = before ++ op :: rest
    ∧ (afterOps before).activeToken index = some token
    ∧ (step op (afterOps before)).2.activeToken index ≠ some token

/-! ## The invariant -/

/-- Every cursor is well formed, and has an identity of its own below the counter. -/
structure Identified (pool : CursorPool) : Prop where
  cursor : ∀ (index : ℕ) (cursor : HistoryCursor), pool.cursors[index]? = some cursor → cursor.WellFormed
  identity_lt : ∀ (index : ℕ) (cursor : HistoryCursor), pool.cursors[index]? = some cursor →
    cursor.identity < pool.nextCursorId
  identity_inj : ∀ (i j : ℕ) (a b : HistoryCursor), pool.cursors[i]? = some a →
    pool.cursors[j]? = some b → a.identity = b.identity → i = j

/-- The ways an operation changes a process. -/
inductive Stepped (pool : CursorPool) : Op nostr → CursorPool → Prop where
  | unchanged {op : Op nostr} : Stepped pool op pool
  | created {source : String} {filter : Filter} {now maxLimit : ℕ} {cursor : HistoryCursor}
      (hnew : HistoryCursor.new pool.nextCursorId source filter now maxLimit
        = (.ok cursor, pool.nextCursorId + 1))
      (hid : cursor.identity = pool.nextCursorId) :
      Stepped pool (.new source filter now maxLimit)
        { nextCursorId := pool.nextCursorId + 1, cursors := pool.cursors ++ [cursor] }
  | called {index : ℕ} {c : Call nostr} {cursor : HistoryCursor}
      (hcursor : pool.cursors[index]? = some cursor) :
      Stepped pool (.call index c)
        { pool with cursors := pool.cursors.set index (HistoryCursor.call c cursor).2 }

/-- `new` returns a cursor with the counter as its identity and counts up, or returns an error
and leaves the counter. -/
theorem new_cases (nextCursorId : ℕ) (source : String) (filter : Filter) (now maxLimit : ℕ) :
    (∃ error, HistoryCursor.new nextCursorId source filter now maxLimit
      = (.error error, nextCursorId))
    ∨ ∃ cursor, HistoryCursor.new nextCursorId source filter now maxLimit
        = (.ok cursor, nextCursorId + 1) ∧ cursor.identity = nextCursorId := by
  simp only [HistoryCursor.new]
  split_ifs
  · exact .inl ⟨_, rfl⟩
  · exact .inl ⟨_, rfl⟩
  · exact .inl ⟨_, rfl⟩
  · exact .inr ⟨_, rfl, rfl⟩

theorem step_stepped (pool : CursorPool) (op : Op nostr) : Stepped pool op (step op pool).2 := by
  cases op with
  | new source filter now maxLimit =>
    rcases new_cases pool.nextCursorId source filter now maxLimit with
      ⟨error, herror⟩ | ⟨cursor, hcursor, hid⟩
    · simp only [step, herror]
      exact .unchanged
    · simp only [step, hcursor]
      exact .created hcursor hid
  | call index c =>
    rcases hcursor : pool.cursors[index]? with _ | cursor
    · simp only [step, hcursor]
      exact .unchanged
    · simp only [step, hcursor]
      exact .called hcursor

/-- A cursor stays at its place and keeps its identity over an operation. -/
theorem Stepped.continues {pool later : CursorPool} {op : Op nostr} (h : Stepped pool op later)
    {index : ℕ} {cursor : HistoryCursor} (hcursor : pool.cursors[index]? = some cursor) :
    ∃ cursor', later.cursors[index]? = some cursor' ∧ Continues cursor cursor' := by
  cases h with
  | unchanged => exact ⟨cursor, hcursor, Continues.refl cursor⟩
  | created _ _ =>
    refine ⟨cursor, ?_, Continues.refl cursor⟩
    rw [List.getElem?_append_left (List.getElem?_eq_some_iff.mp hcursor).1, hcursor]
  | @called i c old hold =>
    by_cases hi : i = index
    · subst hi
      obtain rfl : old = cursor := by simpa [hold] using hcursor
      refine ⟨(HistoryCursor.call c old).2, ?_, (call_called old c).continues⟩
      simp [(List.getElem?_eq_some_iff.mp hold).1]
    · refine ⟨cursor, ?_, Continues.refl cursor⟩
      rw [List.getElem?_set_ne hi, hcursor]

/-- A cursor after an operation was there before it, or is the one just created. -/
theorem Stepped.origin {pool later : CursorPool} {op : Op nostr} (h : Stepped pool op later)
    {index : ℕ} {cursor : HistoryCursor} (hcursor : later.cursors[index]? = some cursor) :
    (∃ old, pool.cursors[index]? = some old ∧ Continues old cursor
      ∧ (old.WellFormed → cursor.WellFormed))
    ∨ (index = pool.cursors.length ∧ cursor.identity = pool.nextCursorId
      ∧ cursor.WellFormed ∧ later.nextCursorId = pool.nextCursorId + 1) := by
  cases h with
  | unchanged => exact .inl ⟨cursor, hcursor, Continues.refl cursor, id⟩
  | @created _ _ _ _ new hnew hid =>
    rcases Nat.lt_trichotomy index pool.cursors.length with hlt | heq | hgt
    · rw [List.getElem?_append_left hlt] at hcursor
      exact .inl ⟨cursor, hcursor, Continues.refl cursor, id⟩
    · subst heq
      obtain rfl : new = cursor := by simpa using hcursor
      exact .inr ⟨rfl, hid, wellFormed_new hnew, rfl⟩
    · rw [List.getElem?_eq_none (by simp; omega)] at hcursor
      cases hcursor
  | @called i c old hold =>
    by_cases hi : i = index
    · subst hi
      have hlt := (List.getElem?_eq_some_iff.mp hold).1
      obtain rfl : (HistoryCursor.call c old).2 = cursor := by
        simpa [List.getElem?_set_self hlt] using hcursor
      have hcalled := call_called old c
      exact .inl ⟨old, hold, hcalled.continues, hcalled.wellFormed⟩
    · rw [List.getElem?_set_ne hi] at hcursor
      exact .inl ⟨cursor, hcursor, Continues.refl cursor, id⟩

/-- The counter never goes back. -/
theorem Stepped.nextCursorId_le {pool later : CursorPool} {op : Op nostr}
    (h : Stepped pool op later) : pool.nextCursorId ≤ later.nextCursorId := by
  cases h with
  | unchanged => exact Nat.le_refl _
  | created _ _ => exact Nat.le_succ _
  | called _ => exact Nat.le_refl _

/-- An operation keeps the identities apart. -/
theorem Stepped.identified {pool later : CursorPool} {op : Op nostr} (h : Stepped pool op later)
    (hpool : Identified pool) : Identified later where
  cursor := by
    intro index cursor hcursor
    rcases h.origin hcursor with ⟨old, hold, -, hwf⟩ | ⟨-, -, hwf, -⟩
    · exact hwf (hpool.cursor index old hold)
    · exact hwf
  identity_lt := by
    intro index cursor hcursor
    rcases h.origin hcursor with ⟨old, hold, hcont, -⟩ | ⟨-, hid, -, hnext⟩
    · rw [hcont.identity]
      exact (hpool.identity_lt index old hold).trans_le h.nextCursorId_le
    · omega
  identity_inj := by
    intro i j a b ha hb hid
    rcases h.origin ha with ⟨olda, holda, hconta, -⟩ | ⟨hi, hida, -, -⟩
    · rcases h.origin hb with ⟨oldb, holdb, hcontb, -⟩ | ⟨-, hidb, -, -⟩
      · rw [hconta.identity, hcontb.identity] at hid
        exact hpool.identity_inj i j olda oldb holda holdb hid
      · have hlt := hpool.identity_lt i olda holda
        rw [hconta.identity] at hid
        omega
    · rcases h.origin hb with ⟨oldb, holdb, hcontb, -⟩ | ⟨hj, -, -, -⟩
      · have hlt := hpool.identity_lt j oldb holdb
        rw [hcontb.identity] at hid
        omega
      · rw [hi, hj]

theorem identified_initial : Identified initial where
  cursor := by simp [initial]
  identity_lt := by simp [initial]
  identity_inj := by simp [initial]

theorem identified_afterOps (ops : List (Op nostr)) : Identified (afterOps ops) :=
  Mealy.invariant (fun op pool hpool => (step_stepped pool op).identified hpool)
    identified_initial ops

/-- A cursor keeps its place and its identity. -/
theorem continues_after {pool : CursorPool} {index : ℕ} {cursor : HistoryCursor}
    (hcursor : pool.cursors[index]? = some cursor) (ops : List (Op nostr)) :
    ∃ cursor', (Mealy.after step pool ops).cursors[index]? = some cursor'
      ∧ Continues cursor cursor' := by
  refine Mealy.invariant (I := fun later : CursorPool => ∃ cursor', later.cursors[index]? = some cursor'
    ∧ Continues cursor cursor') ?_ ⟨cursor, hcursor, Continues.refl cursor⟩ ops
  rintro op later ⟨mid, hmid, hcont⟩
  obtain ⟨last, hlast, hcont'⟩ := (step_stepped later op).continues hmid
  exact ⟨last, hlast, hcont.trans hcont'⟩

/-! ## Tokens that find no page -/

/-- A call that begins a page and returns it. -/
theorem step_beginPage {pool : CursorPool} {index : ℕ} {page : HistoryPage}
    (h : (step (.call index .beginPage : Op nostr) pool).1 = some (.page (some page))) :
    ∃ cursor, pool.cursors[index]? = some cursor ∧ page.token.cursor = cursor.identity := by
  rcases hcursor : pool.cursors[index]? with _ | cursor
  · simp [step, hcursor] at h
  · refine ⟨cursor, rfl, ?_⟩
    simp only [step, hcursor, HistoryCursor.call, Option.some.injEq, Reply.page.injEq] at h
    rcases beginPage_cases cursor with hnone | ⟨-, -, hbegin⟩
    · simp [hnone] at h
    · rw [hbegin, Option.some.injEq] at h
      rw [← h]

/-- The token of another cursor's page is not the active one. -/
theorem Issued.ne_activeToken {ops : List (Op nostr)} {i j : ℕ} {token : HistoryPageToken}
    (h : Issued ops j token) (hij : j ≠ i) {cursor : HistoryCursor}
    (hcursor : (afterOps ops).cursors[i]? = some cursor) : cursor.activeToken ≠ some token := by
  obtain ⟨before, rest, page, rfl, hreply, rfl⟩ := h
  have hpool := identified_afterOps (before ++ .call j .beginPage :: rest)
  obtain ⟨other, hother, hid⟩ := step_beginPage hreply
  obtain ⟨later, hlater, hcont⟩ := continues_after hother (.call j .beginPage :: rest : List (Op nostr))
  rw [← Mealy.after_append] at hlater
  intro hactive
  obtain ⟨active, hpage, htoken⟩ := activeToken_eq_some_iff.mp hactive
  have hidentity : active.token.cursor = cursor.identity := by
    rw [(hpool.cursor i cursor hcursor).active_token active hpage]
  apply hij
  apply hpool.identity_inj j i later cursor hlater hcursor
  rw [hcont.identity, ← hid, ← htoken, hidentity]

/-- What a call does to the active token: it keeps it, drops it, or begins the next page. -/
theorem call_activeToken (cursor : HistoryCursor) (c : Call nostr) :
    (HistoryCursor.call c cursor).2.activeToken = cursor.activeToken
    ∨ (HistoryCursor.call c cursor).2.activeToken = none
    ∨ (HistoryCursor.call c cursor).2.activeToken
      = some { cursor := cursor.identity, page := cursor.generation + 1 } := by
  have hcalled := call_called cursor c
  generalize (HistoryCursor.call c cursor).2 = later at hcalled ⊢
  cases hcalled with
  | unchanged _ _ => exact .inl rfl
  | begun _ _ _ => exact .inr (.inr rfl)
  | full hactive _ _ _ =>
    left
    simp [HistoryCursor.activeToken, hactive]
  | observed hactive _ _ _ =>
    left
    simp [HistoryCursor.activeToken, hactive, withSeen]
  | settled _ hsettled =>
    right
    left
    simp [HistoryCursor.activeToken, hsettled.active]
  | cancelled => exact .inr (.inl rfl)

/-- The page of the token is not active, and its generation has been reached. -/
def Past (pool : CursorPool) (index : ℕ) (token : HistoryPageToken) : Prop :=
  ∃ cursor, pool.cursors[index]? = some cursor ∧ cursor.activeToken ≠ some token
    ∧ token.page ≤ cursor.generation

/-- A page that has ended does not become active again. -/
theorem Past.stepped {pool later : CursorPool} {op : Op nostr} (h : Stepped pool op later)
    {index : ℕ} {token : HistoryPageToken} (hpast : pool.Past index token) :
    later.Past index token := by
  obtain ⟨cursor, hcursor, hactive, hpage⟩ := hpast
  cases h with
  | unchanged => exact ⟨cursor, hcursor, hactive, hpage⟩
  | created _ _ =>
    refine ⟨cursor, ?_, hactive, hpage⟩
    rw [List.getElem?_append_left (List.getElem?_eq_some_iff.mp hcursor).1, hcursor]
  | @called i c old hold =>
    by_cases hi : i = index
    · subst hi
      obtain rfl : old = cursor := by simpa [hold] using hcursor
      have hgen := (call_called old c).continues.generation_le
      refine ⟨(HistoryCursor.call c old).2, ?_, ?_, hpage.trans hgen⟩
      · simp [(List.getElem?_eq_some_iff.mp hold).1]
      · rcases call_activeToken old c with hkeep | hdrop | hnext
        · rwa [hkeep]
        · simp [hdrop]
        · -- The next page has a later generation than the token.
          rw [hnext, Ne, Option.some.injEq]
          rintro rfl
          simp only at hpage
          omega
    · refine ⟨cursor, ?_, hactive, hpage⟩
      rw [List.getElem?_set_ne hi, hcursor]

/-- The token of a page that has ended is not the active one. -/
theorem Ended.ne_activeToken {ops : List (Op nostr)} {i : ℕ} {token : HistoryPageToken}
    (h : Ended ops i token) {cursor : HistoryCursor}
    (hcursor : (afterOps ops).cursors[i]? = some cursor) : cursor.activeToken ≠ some token := by
  obtain ⟨before, op, rest, rfl, hbefore, hafter⟩ := h
  obtain ⟨old, hold, hactive⟩ := Option.bind_eq_some_iff.mp hbefore
  have hwf := (identified_afterOps before).cursor i old hold
  have hstepped := step_stepped (afterOps before) op
  obtain ⟨next, hnext, hcont⟩ := hstepped.continues hold
  have hpast : (step op (afterOps before)).2.Past i token := by
    refine ⟨next, hnext, ?_, ?_⟩
    · intro hsame
      exact hafter (Option.bind_eq_some_iff.mpr ⟨next, hnext, hsame⟩)
    · obtain ⟨page, hpage, rfl⟩ := activeToken_eq_some_iff.mp hactive
      rw [hwf.active_token page hpage]
      exact hcont.generation_le
  have hlast := Mealy.invariant (I := fun pool : CursorPool => pool.Past i token)
    (fun op pool hpool => hpool.stepped (step_stepped pool op)) hpast rest
  rw [afterOps, Mealy.after_append, Mealy.after_cons] at hcursor
  obtain ⟨final, hfinal, hne, -⟩ := hlast
  rw [hcursor, Option.some.injEq] at hfinal
  rwa [hfinal]

end CursorPool

end NostrPubsub
