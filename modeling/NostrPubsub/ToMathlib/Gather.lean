import Mathlib.Data.List.Induction
import Mathlib.Data.List.Nodup

/-!
# Gathering the elements of a list by a key

A program that collects elements with one key walks over them and keeps one entry for each
key, in the order in which the keys appear: a further element is combined into the entry that
is there. `List.gather` is that loop. Its entries are the elements of one key, combined from
left to right (`List.mem_gather`), and no key has two (`List.nodup_gather`).
-/

namespace List

variable {β κ : Type*} [DecidableEq κ]

/-- Combine an element into the entry of its key, or append it. -/
def absorb (key : β → κ) (combine : β → β → β) : List β → β → List β
  | [], b => [b]
  | known :: rest, b =>
    if key known = key b then combine known b :: rest else known :: absorb key combine rest b

/-- One entry for each key, in the order of appearance. -/
def gather (key : β → κ) (combine : β → β → β) (l : List β) : List β :=
  l.foldl (absorb key combine) []

variable {key : β → κ} {combine : β → β → β}

theorem gather_concat (l : List β) (b : β) :
    gather key combine (l ++ [b]) = absorb key combine (gather key combine l) b := by
  rw [gather, foldl_append, foldl_cons, foldl_nil, gather]

/-- The keys after an element was absorbed. -/
theorem map_absorb (hkey : ∀ a b, key (combine a b) = key a) (l : List β) (b : β) :
    (absorb key combine l b).map key
      = if key b ∈ l.map key then l.map key else l.map key ++ [key b] := by
  induction l with
  | nil => simp [absorb]
  | cons known rest ih =>
    rw [absorb]
    by_cases hb : key known = key b
    · simp [hb, hkey]
    · simp only [if_neg hb, map_cons, ih, mem_cons, Ne.symm hb, false_or]
      split <;> rfl

theorem nodup_gather (hkey : ∀ a b, key (combine a b) = key a) (l : List β) :
    ((gather key combine l).map key).Nodup := by
  induction l using List.reverseRecOn with
  | nil => exact nodup_nil
  | append_singleton l b ih =>
    rw [gather_concat, map_absorb hkey]
    split
    · exact ih
    · next hb =>
      refine nodup_append.mpr ⟨ih, nodup_singleton _, ?_⟩
      rintro x hx y hy rfl
      rw [mem_singleton.mp hy] at hx
      exact hb hx

/-- Entries of other keys are untouched. -/
theorem mem_absorb_of_ne (hkey : ∀ a b, key (combine a b) = key a) {l : List β} {b e : β}
    (h : key e ≠ key b) : e ∈ absorb key combine l b ↔ e ∈ l := by
  induction l with
  | nil =>
    simp only [absorb, mem_singleton, not_mem_nil, iff_false]
    rintro rfl
    exact h rfl
  | cons known rest ih =>
    rw [absorb]
    split
    · next hknown =>
      rw [mem_cons, mem_cons]
      constructor
      · rintro (rfl | hrest)
        · exact absurd ((hkey known b).trans hknown) h
        · exact .inr hrest
      · rintro (rfl | hrest)
        · exact absurd hknown h
        · exact .inr hrest
    · rw [mem_cons, mem_cons, ih]

/-- The entry of the key, if there was none. -/
theorem absorb_of_notMem {l : List β} {b : β} (h : key b ∉ l.map key) :
    absorb key combine l b = l ++ [b] := by
  induction l with
  | nil => rfl
  | cons known rest ih =>
    rw [map_cons, mem_cons, not_or] at h
    rw [absorb, if_neg (Ne.symm h.1), ih h.2, cons_append]

/-- The entry of the key, if there was one. -/
theorem mem_absorb_of_mem {l : List β} {b known : β} (hknown : known ∈ l)
    (hb : key known = key b) (hnodup : (l.map key).Nodup) {e : β} (he : key e = key b) : e ∈ absorb key combine l b ↔ e = combine known b := by
  induction l with
  | nil => cases hknown
  | cons first rest ih =>
    rw [map_cons, nodup_cons] at hnodup
    rw [absorb]
    rcases mem_cons.mp hknown with rfl | hrest
    · -- No other entry has this key.
      rw [if_pos hb, mem_cons, or_iff_left]
      intro hmem
      exact hnodup.1 (mem_map.mpr ⟨e, hmem, he.trans hb.symm⟩)
    · have hfirst : key first ≠ key b := by
        intro heq
        exact hnodup.1 (mem_map.mpr ⟨known, hrest, hb.trans heq.symm⟩)
      rw [if_neg hfirst, mem_cons, ih hrest hnodup.2, or_iff_right]
      rintro rfl
      exact hfirst he

omit [DecidableEq κ] in
/-- Combining keeps the key. -/
theorem key_foldl_combine (hkey : ∀ a b, key (combine a b) = key a) (others : List β) (a : β) :
    key (others.foldl combine a) = key a := by
  induction others generalizing a with
  | nil => rfl
  | cons x rest ih => exact (ih _).trans (hkey a x)

/-- The entries are the elements of one key, combined in their order. -/
theorem mem_gather (hkey : ∀ a b, key (combine a b) = key a) {l : List β} {e : β} :
    e ∈ gather key combine l ↔ ∃ first others,
      l.filter (fun b => key b = key e) = first :: others ∧ others.foldl combine first = e := by
  induction l using List.reverseRecOn generalizing e with
  | nil => simp [gather]
  | append_singleton l b ih =>
    rw [gather_concat, filter_append, filter_singleton]
    by_cases hb : key b = key e
    · simp only [hb, decide_true, cond_true]
      cases hfilter : l.filter (fun b => key b = key e) with
      | nil =>
        -- The first element of its key is appended.
        have hnew : key b ∉ (gather key combine l).map key := by
          rw [mem_map]
          rintro ⟨x, hx, hxb⟩
          obtain ⟨first, others, hcopies, -⟩ := ih.mp hx
          rw [hxb, hb, hfilter] at hcopies
          cases hcopies
        rw [absorb_of_notMem hnew, mem_append, mem_singleton, nil_append]
        constructor
        · rintro (hmem | rfl)
          · exact absurd (mem_map.mpr ⟨e, hmem, hb.symm⟩) hnew
          · exact ⟨e, [], rfl, rfl⟩
        · rintro ⟨first, others, heq, hfold⟩
          cases heq
          exact .inr hfold.symm
      | cons first others =>
        -- A further one is combined into the entry of those before it.
        have hfirst : key first = key e := by
          have hmem : first ∈ l.filter (fun b => key b = key e) := by rw [hfilter]; exact mem_cons_self
          exact of_decide_eq_true (mem_filter.mp hmem).2
        have hentry : key (others.foldl combine first) = key e := 
          (key_foldl_combine hkey others first).trans hfirst
        have hknown : others.foldl combine first ∈ gather key combine l :=
          ih.mpr ⟨first, others, by rw [hentry]; exact hfilter, rfl⟩
        rw [mem_absorb_of_mem hknown (hentry.trans hb.symm) (nodup_gather hkey l) hb.symm]
        constructor
        · rintro rfl
          exact ⟨first, others ++ [b], rfl, by rw [foldl_append, foldl_cons, foldl_nil]⟩
        · rintro ⟨first', others', heq, hcombined⟩
          rw [cons_append, cons.injEq] at heq
          obtain ⟨rfl, rfl⟩ := heq
          rw [foldl_append, foldl_cons, foldl_nil] at hcombined
          exact hcombined.symm
    · simp only [hb, decide_false, cond_false, append_nil]
      rw [mem_absorb_of_ne hkey (Ne.symm hb), ih]

end List
