import Mathlib.Data.List.Nodup

/-! Traces of what a program does with handles that are opened, used and closed. -/
namespace SysHelo.Handles

inductive Op (α : Type) where
  | acquire (handle : α)
  | use (handle : α)
  | release (handle : α)
  deriving DecidableEq

variable {α : Type} [DecidableEq α] {us : List α} {ops ops' : List (Op α)}

/-- The open handles after one more operation, in the order in which they were opened. -/
def after (handles : List α) : Op α → List α
  | .acquire h => handles ++ [h]
  | .use _ => handles
  | .release h => handles.erase h

/-- Only a handle that is not open is opened, only one that is open is used or closed. -/
def Allowed (handles : List α) : Op α → Prop
  | .acquire h => h ∉ handles
  | .use h => h ∈ handles
  | .release h => h ∈ handles

def held (handles : List α) (ops : List (Op α)) : List α := ops.foldl after handles

def Lawful (handles : List α) : List (Op α) → Prop
  | [] => True
  | op :: ops => Allowed handles op ∧ Lawful (after handles op) ops

variable {handles : List α}

theorem held_append : held handles (ops ++ ops') = held (held handles ops) ops' :=
  List.foldl_append

theorem lawful_append :
    Lawful handles (ops ++ ops') ↔ Lawful handles ops ∧ Lawful (held handles ops) ops' := by
  induction ops generalizing handles with
  | nil => simp [Lawful, held]
  | cons op ops ih => rw [List.cons_append, Lawful, Lawful, ih, and_assoc]; rfl

theorem Lawful.nodup (lawful : Lawful handles ops) (nodup : handles.Nodup) :
    (held handles ops).Nodup := by
  induction ops generalizing handles with
  | nil => exact nodup
  | cons op ops ih =>
    apply ih lawful.2
    cases op with
    | acquire h => exact List.nodup_append.mpr ⟨nodup, List.nodup_singleton h, fun a member b other => by
        rw [List.mem_singleton.mp other]
        rintro rfl
        exact lawful.1 member⟩
    | use h => exact nodup
    | release h => exact nodup.erase h

/-- Every handle is closed as often as it is opened, but for those that are still open. -/
theorem Lawful.balance (lawful : Lawful handles ops) (h : α) :
    handles.count h + ops.count (.acquire h) = ops.count (.release h) + (held handles ops).count h := by
  induction ops generalizing handles with
  | nil => simp [held]
  | cons op ops ih =>
    have rest := ih lawful.2
    rw [held, List.foldl_cons, ← held]
    cases op with
    | acquire a =>
      rw [after, List.count_append, List.count_singleton] at rest
      by_cases same : a = h
      · subst same
        rw [List.count_cons_self, List.count_cons_of_ne (by simp), after]
        simp only [beq_self_eq_true, if_true] at rest
        omega
      · rw [List.count_cons_of_ne (by simpa using same), List.count_cons_of_ne (by simp), after]
        simp only [beq_iff_eq, same, if_false] at rest
        omega
    | use a =>
      rw [List.count_cons_of_ne (by simp), List.count_cons_of_ne (by simp)]
      exact rest
    | release a =>
      have inside : a ∈ handles := lawful.1
      rw [after] at rest ⊢
      by_cases same : a = h
      · subst same
        rw [List.count_erase_self] at rest
        have := List.count_pos_iff.mpr inside
        rw [List.count_cons_of_ne (by simp), List.count_cons_self]
        omega
      · rw [List.count_erase_of_ne (Ne.symm same)] at rest
        rw [List.count_cons_of_ne (by simp), List.count_cons_of_ne (by simpa using same)]
        exact rest

theorem lawful_use (inside : ∀ h ∈ us, h ∈ handles) :
    Lawful handles (us.map .use) ∧ held handles (us.map .use) = handles := by
  induction us with
  | nil => exact ⟨trivial, rfl⟩
  | cons h us ih =>
    obtain ⟨lawful, same⟩ := ih fun a member => inside a (List.mem_cons_of_mem _ member)
    exact ⟨⟨inside h List.mem_cons_self, lawful⟩, same⟩

theorem lawful_release (handles : List α) :
    Lawful handles (handles.map .release) ∧ held handles (handles.map .release) = [] := by
  induction handles with
  | nil => exact ⟨trivial, rfl⟩
  | cons h handles ih =>
    rw [List.map_cons, Lawful, held, List.foldl_cons, after, List.erase_cons_head]
    exact ⟨⟨List.mem_cons_self, ih.1⟩, ih.2⟩

end SysHelo.Handles
