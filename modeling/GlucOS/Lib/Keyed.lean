import Mathlib

/-! Lists of entries that have different keys, read as finite maps. -/

namespace GlucOS

variable {α κ : Type*} [DecidableEq κ]

/-- The entry with a key. -/
def keyed (key : α → κ) (entries : List α) (k : κ) : Option α :=
  entries.find? fun entry => key entry = k

variable {key : α → κ} {entries front back : List α} {new : α} {k : κ}

/-- Nothing is found under a key that no entry has. -/
theorem keyed_eq_none : keyed key entries k = none ↔ ∀ entry ∈ entries, key entry ≠ k := by
  rw [keyed, List.find?_eq_none]
  simp

/-- With different keys, each entry is found under its own. -/
theorem keyed_of_mem (distinct : (entries.map key).Nodup) {entry : α} (mem : entry ∈ entries) :
    keyed key entries (key entry) = some entry := by
  cases found : keyed key entries (key entry) with
  | none => exact absurd rfl (keyed_eq_none.mp found entry mem)
  | some other =>
    -- Another entry with this key would be the same.
    have same : key other = key entry := by
      simpa using List.find?_some found
    rw [List.inj_on_of_nodup_map distinct (List.mem_of_find?_eq_some found) mem same]

/-- An entry under a new key is the only change, wherever it is put. -/
theorem keyed_insert (fresh : keyed key (front ++ back) (key new) = none) :
    keyed key (front ++ new :: back) =
      Function.update (keyed key (front ++ back)) (key new) (some new) := by
  -- No entry in front of the new one has its key.
  have other := keyed_eq_none.mp fresh
  have before : front.find? (fun entry => key entry = key new) = none := by
    rw [List.find?_eq_none]
    intro entry mem
    simpa using other entry (List.mem_append_left _ mem)
  funext k
  by_cases here : k = key new
  · subst here
    rw [Function.update_self, keyed, List.find?_append, before, Option.none_or,
      List.find?_cons_of_pos (by simp)]
  · rw [Function.update_of_ne here, keyed, keyed, List.find?_append, List.find?_append,
      List.find?_cons_of_neg (by simpa using Ne.symm here)]

/-- Dropping the entries under a key is the only change. -/
theorem keyed_filter (gone : κ) :
    keyed key (entries.filter fun entry => key entry ≠ gone) =
      Function.update (keyed key entries) gone none := by
  funext k
  by_cases here : k = gone
  · subst here
    rw [Function.update_self, keyed_eq_none]
    intro entry mem
    simpa using (List.mem_filter.mp mem).2
  · rw [Function.update_of_ne here, keyed, keyed, List.find?_filter]
    congr 1
    funext entry
    by_cases same : key entry = k
    · simp [same, here]
    · simp [same]

/-- With different keys, one entry apart from the others. -/
theorem keyed_perm (distinct : (entries.map key).Nodup) {entry : α}
    (found : keyed key entries k = some entry) :
    entries.Perm (entry :: entries.filter fun other => key other ≠ k) := by
  have mem := List.mem_of_find?_eq_some found
  have isKey : key entry = k := by
    simpa using List.find?_some found
  subst isKey
  -- The list is split around the entry.
  obtain ⟨front, back, rfl⟩ := List.append_of_mem mem
  rw [(List.perm_middle.map key).nodup_iff, List.map_cons, List.nodup_cons] at distinct
  have others : ∀ other ∈ front ++ back, key other ≠ key entry := by
    intro other isOther same
    exact distinct.1 (same ▸ List.mem_map_of_mem isOther)
  have left : (front ++ entry :: back).filter (fun other => key other ≠ key entry) =
      front ++ back := by
    rw [List.filter_append, List.filter_cons_of_neg (by simp), ← List.filter_append]
    exact List.filter_eq_self.mpr fun other isOther => by simpa using others other isOther
  rw [left]
  exact List.perm_middle

/-- With different keys there is one entry at most under each. -/
theorem countP_keyed (distinct : (entries.map key).Nodup) (k : κ) :
    entries.countP (fun entry => key entry = k) =
      if (keyed key entries k).isSome then 1 else 0 := by
  have count : entries.countP (fun entry => key entry = k) = (entries.map key).count k := by
    rw [List.count, List.countP_map]
    apply List.countP_congr
    intro entry _
    simp
  rw [count]
  cases found : keyed key entries k with
  | none =>
    rw [List.count_eq_zero_of_not_mem]
    · rfl
    · intro mem
      obtain ⟨entry, isEntry, is⟩ := List.mem_map.mp mem
      exact keyed_eq_none.mp found entry isEntry is
  | some entry =>
    rw [List.count_eq_one_of_mem distinct]
    · rfl
    · have is := List.find?_some found
      rw [decide_eq_true_eq] at is
      rw [← is]
      exact List.mem_map_of_mem (List.mem_of_find?_eq_some found)

/-- So dropping one key makes the list shorter by one, when it is there. -/
theorem length_filter_keyed (distinct : (entries.map key).Nodup) (gone : κ) :
    (entries.filter fun entry => key entry ≠ gone).length +
      (if (keyed key entries gone).isSome then 1 else 0) = entries.length := by
  have parts := List.length_eq_countP_add_countP (fun entry => decide (key entry = gone))
    (l := entries)
  have rest : entries.countP (fun entry => decide (key entry ≠ gone)) =
      entries.countP fun entry => decide ¬ (decide (key entry = gone) = true) := by
    apply List.countP_congr
    intro entry _
    simp
  rw [countP_keyed distinct gone, ← rest, List.countP_eq_length_filter] at parts
  omega

end GlucOS
