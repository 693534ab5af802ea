import Mathlib

/-! Circular lists written from their head: successors, insertion after a member, and walks. -/

namespace GlucOS

variable {α : Type*} [DecidableEq α]

/-- The members that follow one of them, once around. -/
def ringAfter (ring : List α) (a : α) : List α :=
  (ring.dropWhile (· ≠ a)).tail ++ ring.takeWhile (· ≠ a)

/-- The successor of a member, which is the member itself when it is alone. -/
def ringNext (ring : List α) (a : α) : α := (ringAfter ring a).headD a

/-- A new member right after the first occurrence of another one. -/
def insertAfter : List α → α → α → List α
  | [], _, _ => []
  | x :: rest, a, new => if x = a then x :: new :: rest else x :: insertAfter rest a new

/-- Around a member, what is behind it comes first and what is in front of it last. -/
theorem ringAfter_split {front back : List α} {a : α} (fresh : a ∉ front) :
    ringAfter (front ++ a :: back) a = back ++ front := by
  have skip : ∀ x ∈ front, decide (x ≠ a) = true := by
    intro x member
    have : x ≠ a := fun same => fresh (same ▸ member)
    simpa using this
  -- The search passes over the front part and stops at the member.
  unfold ringAfter
  rw [List.dropWhile_append_of_pos skip, List.takeWhile_append_of_pos skip]
  simp

/-- A member splits the list, and it is in neither part when there are no duplicates. -/
theorem ring_split {ring : List α} {a : α} (nodup : ring.Nodup) (member : a ∈ ring) :
    ∃ front back, ring = front ++ a :: back ∧ a ∉ front ∧ a ∉ back ∧
      ringAfter ring a = back ++ front := by
  obtain ⟨front, back, same⟩ := List.append_of_mem member
  subst same
  have apart := List.nodup_append.mp nodup
  have notFront : a ∉ front := fun inFront => apart.2.2 a inFront a (by simp) rfl
  have notBack : a ∉ back := (List.nodup_cons.mp apart.2.1).1
  exact ⟨front, back, rfl, notFront, notBack, ringAfter_split notFront⟩

/-- Everything but the member itself follows it. -/
theorem mem_ringAfter {ring : List α} {a x : α} (nodup : ring.Nodup) (member : a ∈ ring) :
    x ∈ ringAfter ring a ↔ x ∈ ring ∧ x ≠ a := by
  obtain ⟨front, back, same, notFront, notBack, after⟩ := ring_split nodup member
  rw [after, same]
  constructor
  · intro inside
    refine ⟨?_, ?_⟩
    · rcases List.mem_append.mp inside with inBack | inFront
      · simp [inBack]
      · simp [inFront]
    · rintro rfl
      rcases List.mem_append.mp inside with inBack | inFront
      · exact notBack inBack
      · exact notFront inFront
  · rintro ⟨inside, differ⟩
    simp only [List.mem_append, List.mem_cons] at inside ⊢
    tauto

/-- Going around meets nobody twice. -/
theorem nodup_ringAfter {ring : List α} {a : α} (nodup : ring.Nodup) (member : a ∈ ring) :
    (ringAfter ring a).Nodup := by
  obtain ⟨front, back, same, -, -, after⟩ := ring_split nodup member
  rw [after]
  have apart : (front ++ back).Nodup := by
    rw [same] at nodup
    exact nodup.sublist (List.Sublist.append_left (List.sublist_cons_self a back) front)
  exact (List.perm_append_comm.nodup_iff).mp apart

/-- One member is missing from the way around. -/
theorem length_ringAfter {ring : List α} {a : α} (nodup : ring.Nodup) (member : a ∈ ring) :
    (ringAfter ring a).length + 1 = ring.length := by
  obtain ⟨front, back, same, -, -, after⟩ := ring_split nodup member
  rw [after, same]
  simp only [List.length_append, List.length_cons]
  omega

/-- Walking on from a member met on the way around leads past the start. -/
theorem ringAfter_of_walk {ring walked rest : List α} {a p : α} (nodup : ring.Nodup)
    (member : a ∈ ring) (walk : ringAfter ring a = walked ++ p :: rest) :
    ringAfter ring p = rest ++ a :: walked := by
  obtain ⟨front, back, same, notFront, notBack, after⟩ := ring_split nodup member
  rw [after] at walk
  -- The member lies behind the start, or in front of it.
  rcases List.append_eq_append_iff.mp walk with ⟨gap, walkedIs, frontIs⟩ | ⟨gap, backIs, restIs⟩
  · have shape : ring = gap ++ p :: (rest ++ a :: back) := by rw [same, frontIs]; simp
    have fresh : p ∉ gap := by
      rw [shape] at nodup
      exact fun inGap => (List.nodup_append.mp nodup).2.2 p inGap p (by simp) rfl
    rw [shape, ringAfter_split fresh, walkedIs]
    simp
  · cases gap with
    | nil =>
      simp only [List.nil_append] at restIs
      have shape : ring = [] ++ p :: (rest ++ a :: back) := by rw [same, ← restIs]; simp
      have walkedIs : walked = back := by simpa using backIs.symm
      rw [shape, ringAfter_split (by simp), walkedIs]
      simp
    | cons q gap =>
      obtain ⟨rfl, tailIs⟩ := List.cons.inj restIs
      have tailIs : rest = gap ++ front := tailIs
      have shape : ring = (front ++ a :: walked) ++ p :: gap := by rw [same, backIs]; simp
      have fresh : p ∉ front ++ a :: walked := by
        rw [shape] at nodup
        exact fun inside => (List.nodup_append.mp nodup).2.2 p inside p (by simp) rfl
      rw [shape, ringAfter_split fresh, tailIs]
      simp

/-- The successor of a member met on the way around is the next one, or the start. -/
theorem ringNext_of_walk {ring walked rest : List α} {a p : α} (nodup : ring.Nodup)
    (member : a ∈ ring) (walk : ringAfter ring a = walked ++ p :: rest) :
    ringNext ring p = rest.headD a := by
  unfold ringNext
  rw [ringAfter_of_walk nodup member walk]
  cases rest <;> rfl

/-- The successor of the start. -/
theorem ringNext_eq (ring : List α) (a : α) : ringNext ring a = (ringAfter ring a).headD a := rfl

section Insert

/-- Inserting after a member. -/
theorem insertAfter_split {front back : List α} {a new : α} (fresh : a ∉ front) :
    insertAfter (front ++ a :: back) a new = front ++ a :: new :: back := by
  induction front with
  | nil => simp [insertAfter]
  | cons x front ih =>
    have differ : x ≠ a := fun same => fresh (by simp [same])
    have rest : a ∉ front := fun inside => fresh (by simp [inside])
    simp [insertAfter, differ, ih rest]

/-- The members after an insertion. -/
theorem mem_insertAfter {ring : List α} {a new x : α} (member : a ∈ ring) :
    x ∈ insertAfter ring a new ↔ x = new ∨ x ∈ ring := by
  induction ring with
  | nil => simp at member
  | cons y rest ih =>
    by_cases same : y = a
    · simp only [insertAfter, if_pos same, List.mem_cons]
      tauto
    · have later : a ∈ rest := by
        rcases List.mem_cons.mp member with here | later
        · exact absurd here.symm same
        · exact later
      simp only [insertAfter, if_neg same, List.mem_cons, ih later]
      tauto

/-- A new member is not inserted twice. -/
theorem nodup_insertAfter {ring : List α} {a new : α} (nodup : ring.Nodup) (fresh : new ∉ ring) :
    (insertAfter ring a new).Nodup := by
  induction ring with
  | nil => simp [insertAfter]
  | cons y rest ih =>
    obtain ⟨yFresh, restNodup⟩ := List.nodup_cons.mp nodup
    have newRest : new ∉ rest := fun inside => fresh (by simp [inside])
    have differ : y ≠ new := fun same => fresh (by simp [same])
    by_cases same : y = a
    · simp only [insertAfter, if_pos same, List.nodup_cons, List.mem_cons]
      exact ⟨by tauto, newRest, restNodup⟩
    · simp only [insertAfter, if_neg same, List.nodup_cons]
      refine ⟨?_, ih restNodup newRest⟩
      by_cases member : a ∈ rest
      · rw [mem_insertAfter member]
        tauto
      · -- Without the member nothing is inserted.
        have unchanged : ∀ list : List α, a ∉ list → insertAfter list a new = list := by
          intro list absent
          induction list with
          | nil => rfl
          | cons z list ih =>
            have other : z ≠ a := fun same => absent (by simp [same])
            simp [insertAfter, other, ih fun inside => absent (by simp [inside])]
        rw [unchanged rest member]
        exact yFresh

/-- What is inserted after the start is met first. -/
theorem ringAfter_insertAfter {ring : List α} {a new : α} (nodup : ring.Nodup)
    (member : a ∈ ring) : ringAfter (insertAfter ring a new) a = new :: ringAfter ring a := by
  obtain ⟨front, back, same, notFront, -, after⟩ := ring_split nodup member
  rw [after, same, insertAfter_split notFront, ringAfter_split notFront]
  rfl

end Insert

/-- Taking a member out of the ring takes it out of the way around. -/
theorem ringAfter_erase {ring : List α} {a p : α} (nodup : ring.Nodup) (member : a ∈ ring)
    (differ : p ≠ a) : ringAfter (ring.erase p) a = (ringAfter ring a).erase p := by
  obtain ⟨front, back, same, notFront, notBack, after⟩ := ring_split nodup member
  have erased : (ring.erase p) = front.erase p ++ a :: back.erase p := by
    rw [same]
    by_cases inFront : p ∈ front
    · have notInBack : p ∉ back := by
        rw [same] at nodup
        intro inBack
        exact (List.nodup_append.mp nodup).2.2 p inFront p (by simp [inBack]) rfl
      rw [List.erase_append_left _ inFront, List.erase_of_not_mem notInBack]
    · rw [List.erase_append_right _ inFront, List.erase_cons_tail (by simpa using differ.symm),
        List.erase_of_not_mem inFront]
  have notFront' : a ∉ front.erase p := fun inside => notFront (List.mem_of_mem_erase inside)
  rw [after, erased, ringAfter_split notFront']
  by_cases inBack : p ∈ back
  · have notInFront : p ∉ front := by
      rw [same] at nodup
      intro inFront
      exact (List.nodup_append.mp nodup).2.2 p inFront p (by simp [inBack]) rfl
    rw [List.erase_append_left _ inBack, List.erase_of_not_mem notInFront]
  · rw [List.erase_append_right _ inBack, List.erase_of_not_mem inBack]

/-- A new tail is met somewhere on the way around, and nothing else changes. -/
theorem ringAfter_append {ring : List α} {a : α} (nodup : ring.Nodup) (member : a ∈ ring)
    (new : α) : ∃ before behind, ringAfter ring a = before ++ behind ∧
      ringAfter (ring ++ [new]) a = before ++ new :: behind := by
  obtain ⟨front, back, same, notFront, -, after⟩ := ring_split nodup member
  refine ⟨back, front, after, ?_⟩
  have shape : ring ++ [new] = front ++ a :: (back ++ [new]) := by rw [same]; simp
  rw [shape, ringAfter_split notFront]
  simp

end GlucOS
