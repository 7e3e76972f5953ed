import Mathlib.Init

/-! A reading of something that changes over time, which is taken again only when it has got old. -/
namespace SysHelo.Throttle
variable {α : Type}

/-- What was read, and when. -/
structure Reading (α : Type) where
  value : α
  taken : Nat

/-- The reading is taken again when it is forced, or as old as the interval. -/
def Due (interval : Nat) (force : Bool) (now : Nat) (r : Reading α) : Prop := force ∨ r.taken + interval ≤ now

instance (interval : Nat) (force : Bool) (now : Nat) (r : Reading α) : Decidable (Due interval force now r) :=
  inferInstanceAs (Decidable (_ ∨ _))

def renew (interval : Nat) (force : Bool) (now : Nat) (value : α) (r : Reading α) : Reading α :=
  if Due interval force now r then ⟨value, now⟩ else r

/-- The reading is what the source gave at some time that is not ahead. -/
structure Taken (source : Nat → α) (now : Nat) (r : Reading α) : Prop where
  value : r.value = source r.taken
  past : r.taken ≤ now

/-- So it is, and not as old as the interval. -/
structure Fresh (interval : Nat) (source : Nat → α) (now : Nat) (r : Reading α) : Prop extends
    Taken source now r where
  young : now < r.taken + interval

section
variable {interval now now' : Nat} {source : Nat → α} {r : Reading α}

theorem Taken.later (taken : Taken source now r) (later : now ≤ now') : Taken source now' r :=
  ⟨taken.value, Nat.le_trans taken.past later⟩

theorem renew_fresh (positive : 0 < interval) (taken : Taken source now r) (force : Bool) :
    Fresh interval source now (renew interval force now (source now) r) := by
  unfold renew
  split
  · exact ⟨⟨rfl, Nat.le_refl _⟩, Nat.lt_add_of_pos_right positive⟩
  · rename_i kept
    rw [Due, not_or, Nat.not_le] at kept
    exact ⟨taken, kept.2⟩

end

end SysHelo.Throttle
