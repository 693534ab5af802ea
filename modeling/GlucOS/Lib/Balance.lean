import Mathlib

/-! One integer that counts tokens, and those that wait when there are none. -/

namespace GlucOS

/-- The count is the number of tokens, or else the negated number of waiters. -/
structure Balance (count tokens : Int) (waiters : Nat) : Prop where
  /-- Every waiter takes one off the count. -/
  same : count = tokens - waiters
  /-- No token is given twice. -/
  nonneg : 0 ≤ tokens
  /-- Nobody waits while there are tokens. -/
  idle : 0 < tokens → waiters = 0

namespace Balance

variable {count tokens : Int} {waiters : Nat}

/-- A count to start with. -/
theorem start (nonneg : 0 ≤ count) : Balance count count 0 := ⟨by simp, nonneg, fun _ => rfl⟩

/-- While the count is not negative, nobody waits. -/
theorem nobody (balance : Balance count tokens waiters) (nonneg : 0 ≤ count) : waiters = 0 := by
  obtain ⟨same, enough, idle⟩ := balance
  by_contra some
  have none : ¬ 0 < tokens := fun positive => some (idle positive)
  omega

/-- While somebody waits, there is no token. -/
theorem empty (balance : Balance count tokens waiters) (waits : 0 < waiters) : tokens = 0 := by
  by_contra some
  have positive : 0 < tokens := lt_of_le_of_ne balance.nonneg (Ne.symm some)
  have none := balance.idle positive
  omega

/-- While the count is negative, somebody waits. -/
theorem somebody (balance : Balance count tokens waiters) (negative : count < 0) :
    0 < waiters := by
  have same := balance.same
  have enough := balance.nonneg
  omega

/-- The count tells no more waiters than there are. -/
theorem low (balance : Balance count tokens waiters) : -(waiters : Int) ≤ count := by
  have same := balance.same
  have enough := balance.nonneg
  omega

/-- The count tells no more tokens than there are. -/
theorem high (balance : Balance count tokens waiters) : count ≤ tokens := by
  have same := balance.same
  omega

/-- A token comes, and nobody waits for it. -/
theorem put (balance : Balance count tokens waiters) (nonneg : 0 ≤ count) :
    Balance (count + 1) (tokens + 1) waiters := by
  have none := balance.nobody nonneg
  have same := balance.same
  exact ⟨by omega, by omega, fun _ => none⟩

/-- A token comes, and goes to somebody who waits. -/
theorem handOn (balance : Balance count tokens (waiters + 1)) :
    Balance (count + 1) tokens waiters := by
  have none := balance.empty (Nat.succ_pos _)
  have same := balance.same
  exact ⟨by omega, balance.nonneg, fun positive => by omega⟩

/-- A token is taken. -/
theorem take (balance : Balance count tokens waiters) (nonneg : 0 ≤ count - 1) :
    Balance (count - 1) (tokens - 1) waiters := by
  have none := balance.nobody (by omega)
  have same := balance.same
  exact ⟨by omega, by omega, fun _ => none⟩

/-- There is no token to take. -/
theorem join (balance : Balance count tokens waiters) (negative : count - 1 < 0) :
    Balance (count - 1) tokens (waiters + 1) := by
  have same := balance.same
  have none : ¬ 0 < tokens := fun positive => by
    have nobody := balance.idle positive
    omega
  exact ⟨by omega, balance.nonneg, fun positive => absurd positive none⟩

end Balance

end GlucOS
