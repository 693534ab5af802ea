import Mathlib

/-! Entries of a history by recency: every entry once, the most recent one first. -/

namespace GlucOS

variable {A : Type*} [DecidableEq A]

/-- The different entries of a history that lists the most recent one first. -/
def recency : List A → List A
  | [] => []
  | a :: past => a :: (recency past).filter fun b => b ≠ a

/-- No entry is lost. -/
@[simp] theorem mem_recency {past : List A} {b : A} : b ∈ recency past ↔ b ∈ past := by
  induction past with
  | nil => rfl
  | cons a past ih =>
    by_cases same : b = a
    · simp [recency, same]
    · simp [recency, same, ih]

/-- Every entry is listed once. -/
theorem nodup_recency (past : List A) : (recency past).Nodup := by
  induction past with
  | nil => exact List.nodup_nil
  | cons a past ih =>
    refine List.nodup_cons.mpr ⟨?_, ih.filter _⟩
    simp

/-- Before an entry stand exactly the entries that are more recent. -/
theorem recency_split {past : List A} {b : A} (member : b ∈ past) : ∃ front rest,
    recency past = front ++ b :: rest ∧ b ∉ front ∧
      front.toFinset = (past.takeWhile fun a => a ≠ b).toFinset := by
  induction past with
  | nil => cases member
  | cons a past ih =>
    by_cases same : a = b
    · subst same
      exact ⟨[], _, rfl, List.not_mem_nil, by simp⟩
    · have older : b ∈ past := by
        rcases List.mem_cons.mp member with now | before
        · exact absurd now.symm same
        · exact before
      obtain ⟨front, rest, split, apart, set⟩ := ih older
      refine ⟨a :: front.filter (fun c => c ≠ a), rest.filter fun c => c ≠ a, ?_, ?_, ?_⟩
      · have differ : b ≠ a := fun equal => same equal.symm
        simp [recency, split, differ]
      · have differ : b ≠ a := fun equal => same equal.symm
        simp [apart, differ]
      · rw [List.takeWhile_cons_of_pos (by simpa using same), List.toFinset_cons,
          List.toFinset_cons, ← set]
        -- Leaving the newest entry out before adding it makes no difference.
        ext c
        by_cases newest : c = a <;> simp [newest]

/-- An entry is among the first few exactly when few others are more recent. -/
theorem mem_take_recency {past : List A} {b : A} {n : Nat} :
    b ∈ (recency past).take n ↔
      b ∈ past ∧ (past.takeWhile fun a => a ≠ b).toFinset.card < n := by
  constructor
  · intro early
    have member : b ∈ past := mem_recency.mp (List.mem_of_mem_take early)
    obtain ⟨front, rest, split, apart, set⟩ := recency_split member
    have nodup : front.Nodup := by
      have whole := nodup_recency past
      rw [split] at whole
      exact (List.nodup_append.mp whole).1
    refine ⟨member, ?_⟩
    rw [← set, List.toFinset_card_of_nodup nodup]
    by_contra late
    rw [split, List.take_append_of_le_length (by omega)] at early
    exact apart (List.mem_of_mem_take early)
  · rintro ⟨member, few⟩
    obtain ⟨front, rest, split, apart, set⟩ := recency_split member
    have nodup : front.Nodup := by
      have whole := nodup_recency past
      rw [split] at whole
      exact (List.nodup_append.mp whole).1
    rw [← set, List.toFinset_card_of_nodup nodup] at few
    rw [split, List.take_append, List.mem_append]
    obtain ⟨more, isMore⟩ : ∃ more, n - front.length = more + 1 := ⟨n - front.length - 1, by omega⟩
    exact Or.inr (by simp [isMore])

/-- A present entry moves to the front of those kept. -/
theorem filter_take {l : List A} (nodup : l.Nodup) {b : A} {n : Nat} (early : b ∈ l.take n) :
    (l.filter fun a => a ≠ b).take (n - 1) = (l.take n).filter fun a => a ≠ b := by
  obtain ⟨front, rest, split⟩ := List.append_of_mem early
  have whole : l = front ++ b :: (rest ++ l.drop n) := by
    calc
      l = l.take n ++ l.drop n := (List.take_append_drop n l).symm
      _ = front ++ b :: (rest ++ l.drop n) := by
        rw [split]
        simp
  have size : front.length + rest.length + 1 = min n l.length := by
    have := congrArg List.length split
    simp only [List.length_take, List.length_append, List.length_cons] at this
    omega
  have nodupWhole : (front ++ b :: (rest ++ l.drop n)).Nodup := by
    rw [← whole]
    exact nodup
  obtain ⟨-, nodupTail, apart⟩ := List.nodup_append.mp nodupWhole
  have notFront : ∀ a ∈ front, a ≠ b := fun a member => apart a member b List.mem_cons_self
  have notRest : ∀ a ∈ rest ++ l.drop n, a ≠ b := by
    rintro a member rfl
    exact (List.nodup_cons.mp nodupTail).1 member
  have frontAll : front.filter (fun a => a ≠ b) = front := by
    apply List.filter_eq_self.mpr
    intro a member
    simpa using notFront a member
  have restAll : rest.filter (fun a => a ≠ b) = rest := by
    apply List.filter_eq_self.mpr
    intro a member
    simpa using notRest a (List.mem_append_left _ member)
  have tailAll : (rest ++ l.drop n).filter (fun a => a ≠ b) = rest ++ l.drop n := by
    apply List.filter_eq_self.mpr
    intro a member
    simpa using notRest a member
  have left : l.filter (fun a => a ≠ b) = (front ++ rest) ++ l.drop n := by
    apply (congrArg (List.filter fun a => a ≠ b) whole).trans
    rw [List.filter_append, List.filter_cons_of_neg (by simp), frontAll, tailAll,
      List.append_assoc]
  rw [left, split, List.filter_append, List.filter_cons_of_neg (by simp), frontAll, restAll]
  -- What is kept fills the places before the last one, unless the list is shorter.
  by_cases short : l.length ≤ n
  · rw [List.drop_of_length_le short, List.append_nil]
    exact List.take_of_length_le (by simp; omega)
  · rw [List.take_append_of_le_length (by simp; omega)]
    exact List.take_of_length_le (by simp; omega)

/-- An absent entry is not missed among those kept. -/
theorem filter_take_absent {l : List A} {b : A} {n : Nat} (absent : b ∉ l.take n) :
    (l.filter fun a => a ≠ b).take (n - 1) = l.take (n - 1) := by
  have kept : (l.take n).filter (fun a => a ≠ b) = l.take n := by
    apply List.filter_eq_self.mpr
    intro a member
    have differ : a ≠ b := fun same => absent (same ▸ member)
    simpa using differ
  have split : l.filter (fun a => a ≠ b) =
      l.take n ++ (l.drop n).filter fun a => a ≠ b := by
    apply (congrArg (List.filter fun a => a ≠ b) (List.take_append_drop n l).symm).trans
    rw [List.filter_append, kept]
  rw [split]
  by_cases short : l.length ≤ n - 1
  · -- Everything is kept, and nothing follows.
    have rest : l.drop n = [] := List.drop_of_length_le (by omega)
    rw [rest, List.filter_nil, List.append_nil, List.take_take]
    congr 1
    omega
  · rw [List.take_append_of_le_length (by simp; omega), List.take_take]
    congr 1
    omega

end GlucOS
