import NostrPubsub.ToMathlib.Finmap

/-!
# Buckets of a relation

A relation between keys and values is often kept as a map from each key to the set of its values,
its bucket, without empty buckets. `Finmap.bucket` reads a bucket, `addTo` and `dropFrom` put a value
into one and take it out again. `addToAll` and `dropFromAll` do so for several keys.
-/

namespace Finmap

variable {κ τ : Type*} [DecidableEq κ] [DecidableEq τ] {s : Finmap fun _ : κ => Finset τ}

/-- The values of a key. -/
def bucket (s : Finmap fun _ : κ => Finset τ) (key : κ) : Finset τ := (s.lookup key).getD ∅

/-- Every bucket that is kept has a value. -/
def NoEmptyBucket (s : Finmap fun _ : κ => Finset τ) : Prop :=
  ∀ key bucket, s.lookup key = some bucket → bucket.Nonempty

omit [DecidableEq τ] in
@[simp]
theorem bucket_empty (key : κ) : bucket (∅ : Finmap fun _ : κ => Finset τ) key = ∅ := rfl

omit [DecidableEq τ] in
theorem noEmptyBucket_empty : NoEmptyBucket (∅ : Finmap fun _ : κ => Finset τ) := by
  intro key bucket h
  rw [lookup_empty] at h
  cases h

omit [DecidableEq τ] in
theorem bucket_insert (s : Finmap fun _ : κ => Finset τ) (key k : κ) (values : Finset τ) :
    bucket (s.insert key values) k = if k = key then values else bucket s k := by
  rw [bucket, bucket]
  split
  · next heq =>
    rw [heq, lookup_insert, Option.getD_some]
  · next hne => rw [lookup_insert_of_ne _ hne]

omit [DecidableEq τ] in
theorem bucket_erase (s : Finmap fun _ : κ => Finset τ) (key k : κ) :
    bucket (s.erase key) k = if k = key then ∅ else bucket s k := by
  rw [bucket, bucket]
  split
  · next heq =>
    rw [heq, lookup_erase, Option.getD_none]
  · next hne => rw [lookup_erase_ne hne]

/-! ## Putting in -/

/-- A value goes into the bucket of a key. -/
def addTo (value : τ) (s : Finmap fun _ : κ => Finset τ) (key : κ) : Finmap fun _ : κ => Finset τ :=
  s.insert key (Insert.insert value (s.bucket key))

/-- A value goes into the buckets of several keys. -/
def addToAll (value : τ) (s : Finmap fun _ : κ => Finset τ) (keys : List κ) :
    Finmap fun _ : κ => Finset τ :=
  keys.foldl (addTo value) s

theorem mem_bucket_addTo {value v : τ} {key k : κ} :
    v ∈ (s.addTo value key).bucket k ↔ v ∈ s.bucket k ∨ k = key ∧ v = value := by
  rw [addTo, bucket_insert]
  split
  · next heq =>
    rw [Finset.mem_insert, heq]
    simp [or_comm]
  · next hne => simp [hne]

theorem NoEmptyBucket.addTo (h : s.NoEmptyBucket) (value : τ) (key : κ) :
    (s.addTo value key).NoEmptyBucket := by
  intro k bucket hlookup
  rw [Finmap.addTo] at hlookup
  rcases lookup_insert_eq_some.mp hlookup with ⟨-, rfl⟩ | ⟨-, hold⟩
  · exact Finset.insert_nonempty _ _
  · exact h k bucket hold

theorem mem_bucket_addToAll {value v : τ} {keys : List κ} {k : κ} :
    v ∈ (s.addToAll value keys).bucket k ↔ v ∈ s.bucket k ∨ k ∈ keys ∧ v = value := by
  induction keys generalizing s with
  | nil => simp [addToAll]
  | cons key keys ih =>
    have hrest := ih (s := s.addTo value key)
    rw [addToAll] at hrest ⊢
    rw [List.foldl_cons, hrest, mem_bucket_addTo, List.mem_cons]
    tauto

theorem NoEmptyBucket.addToAll (h : s.NoEmptyBucket) (value : τ) (keys : List κ) :
    (s.addToAll value keys).NoEmptyBucket := by
  induction keys generalizing s with
  | nil => exact h
  | cons key keys ih => exact ih (h.addTo value key)

/-! ## Taking out -/

/-- A value goes out of the bucket of a key, which goes as well when it is empty; a bucket that is
not there is an error. -/
def dropFrom (value : τ) (s : Finmap fun _ : κ => Finset τ) (key : κ) :
    Option (Finmap fun _ : κ => Finset τ) :=
  (s.lookup key).map fun bucket =>
    if (bucket.erase value).card = 0 then s.erase key else s.insert key (bucket.erase value)

/-- A value goes out of the buckets of several keys. -/
def dropFromAll (value : τ) (s : Finmap fun _ : κ => Finset τ) (keys : List κ) :
    Option (Finmap fun _ : κ => Finset τ) :=
  keys.foldlM (dropFrom value) s

/-- A value that is there can be taken out. -/
theorem exists_dropFrom {value : τ} {key : κ} (hmem : value ∈ s.bucket key) (h : s.NoEmptyBucket) :
    ∃ t, s.dropFrom value key = some t ∧ t.NoEmptyBucket ∧
      ∀ v k, v ∈ t.bucket k ↔ v ∈ s.bucket k ∧ ¬ (k = key ∧ v = value) := by
  cases hlookup : s.lookup key with
  | none =>
    rw [bucket, hlookup] at hmem
    cases hmem
  | some values =>
    have hvalues : s.bucket key = values := by rw [bucket, hlookup, Option.getD_some]
    refine ⟨_, by rw [dropFrom, hlookup, Option.map_some], ?_, fun v k => ?_⟩
    · intro k bucket hbucket
      split at hbucket
      · exact h k bucket (lookup_erase_eq_some.mp hbucket).2
      · next hleft =>
        rcases lookup_insert_eq_some.mp hbucket with ⟨-, rfl⟩ | ⟨-, hold⟩
        · exact Finset.card_pos.mp (Nat.pos_of_ne_zero hleft)
        · exact h k bucket hold
    · split
      · next hnone =>
        rw [bucket_erase]
        split
        · next heq =>
          rw [Finset.card_eq_zero] at hnone
          rw [heq, hvalues]
          have hv : v ∉ values.erase value := by simp [hnone]
          simp only [Finset.mem_erase, not_and] at hv
          simp only [Finset.notMem_empty, true_and, false_iff, not_and, not_not]
          exact fun hmemv => by_contra fun hne => hv hne hmemv
        · next hne => simp [hne]
      · rw [bucket_insert]
        split
        · next heq =>
          rw [Finset.mem_erase, heq, hvalues]
          simp [and_comm]
        · next hne => simp [hne]

theorem exists_dropFromAll {value : τ} {keys : List κ} (hnodup : keys.Nodup)
    (hmem : ∀ key ∈ keys, value ∈ s.bucket key) (h : s.NoEmptyBucket) :
    ∃ t, s.dropFromAll value keys = some t ∧ t.NoEmptyBucket ∧
      ∀ v k, v ∈ t.bucket k ↔ v ∈ s.bucket k ∧ ¬ (k ∈ keys ∧ v = value) := by
  induction keys generalizing s with
  | nil => exact ⟨s, rfl, h, by simp⟩
  | cons key keys ih =>
    obtain ⟨hfresh, hrest⟩ := List.nodup_cons.mp hnodup
    obtain ⟨next, hnext, hnoempty, hiff⟩ := exists_dropFrom (hmem key List.mem_cons_self) h
    -- the value stays in the other buckets
    have hthere : ∀ other ∈ keys, value ∈ next.bucket other := by
      intro other hother
      rw [hiff]
      exact ⟨hmem other (List.mem_cons_of_mem _ hother), fun hsame => hfresh (hsame.1 ▸ hother)⟩
    obtain ⟨t, ht, htempty, htiff⟩ := ih hrest hthere hnoempty
    refine ⟨t, ?_, htempty, fun v k => ?_⟩
    · rw [dropFromAll, List.foldlM_cons, hnext]
      exact ht
    · rw [htiff, hiff, List.mem_cons]
      tauto

end Finmap
