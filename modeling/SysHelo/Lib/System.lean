import Mathlib.Logic.Relation

/-! Transition systems and what holds in every state that a run of one can reach. -/
namespace SysHelo

/-- The states a run may start in, and the steps it may take. -/
structure System (σ : Type) where
  start : σ → Prop
  step : σ → σ → Prop

namespace System
variable {σ ι : Type} {system : System σ} {inv : σ → Prop} {s t : σ}

def Reachable (system : System σ) (s : σ) : Prop :=
  ∃ first, system.start first ∧ Relation.ReflTransGen system.step first s

theorem run_reaches {advance : σ → ι → Option σ}
    (steps : ∀ s i t, advance s i = some t → system.step s t) {inputs : List ι}
    (ran : inputs.foldlM advance s = some t) : Relation.ReflTransGen system.step s t := by
  induction inputs generalizing s with
  | nil =>
    obtain rfl := Option.some.inj ran
    rfl
  | cons input inputs ih =>
    rw [List.foldlM_cons] at ran
    obtain ⟨u, stepped, rest⟩ := Option.bind_eq_some_iff.mp ran
    exact .head (steps s input u stepped) (ih rest)

/-- What holds at the start and is kept by every step. -/
structure Invariant (system : System σ) (inv : σ → Prop) : Prop where
  start : ∀ s, system.start s → inv s
  step : ∀ s t, inv s → system.step s t → inv t

namespace Invariant

theorem run (invariant : system.Invariant inv) (holds : inv s)
    (steps : Relation.ReflTransGen system.step s t) : inv t := by
  induction steps with
  | refl => exact holds
  | tail _ last ih => exact invariant.step _ _ ih last

theorem reachable (invariant : system.Invariant inv) (reached : system.Reachable s) : inv s := by
  obtain ⟨first, initial, steps⟩ := reached
  exact invariant.run (invariant.start first initial) steps

end Invariant

/-- Every run of one system is a run of another, more abstract one: from related states each step of it is a
run of that. -/
structure Refines {τ : Type} (concrete : System σ) (abstract : System τ) (related : σ → τ → Prop) : Prop where
  start : ∀ s, concrete.start s → ∃ a, abstract.start a ∧ related s a
  step : ∀ s t a, related s a → concrete.step s t → ∃ b, Relation.ReflTransGen abstract.step a b ∧ related t b

namespace Refines
variable {τ : Type} {concrete : System σ} {abstract : System τ} {related : σ → τ → Prop} {a : τ}
  {abs : τ → Prop}

theorem run (refines : concrete.Refines abstract related) (before : related s a)
    (steps : Relation.ReflTransGen concrete.step s t) :
    ∃ b, Relation.ReflTransGen abstract.step a b ∧ related t b := by
  induction steps with
  | refl => exact ⟨a, .refl, before⟩
  | tail _ last ih =>
    obtain ⟨mid, steps, between⟩ := ih
    obtain ⟨b, further, after⟩ := refines.step _ _ _ between last
    exact ⟨b, steps.trans further, after⟩

theorem reachable (refines : concrete.Refines abstract related) (reached : concrete.Reachable s) :
    ∃ a, abstract.Reachable a ∧ related s a := by
  obtain ⟨first, initial, steps⟩ := reached
  obtain ⟨a, begun, before⟩ := refines.start first initial
  obtain ⟨b, further, after⟩ := refines.run before steps
  exact ⟨b, ⟨a, begun, further⟩, after⟩

theorem invariant (refines : concrete.Refines abstract related) (kept : abstract.Invariant abs)
    (reached : concrete.Reachable s) : ∃ a, related s a ∧ abs a := by
  obtain ⟨a, begun, same⟩ := refines.reachable reached
  exact ⟨a, same, kept.reachable begun⟩

end Refines

end System

section Along
variable {ι σ : Type} {s : σ} {run : List (ι × σ)}

/-- What holds of every step of a run: of the state before it, its input and the state it leads to. -/
def Along (p : σ → ι → σ → Prop) : σ → List (ι × σ) → Prop
  | _, [] => True
  | s, (i, t) :: rest => p s i t ∧ Along p t rest

theorem along_target (p : σ → Prop) (s : σ) (run : List (ι × σ)) :
    Along (fun _ (_ : ι) t => p t) s run ↔ ∀ passed ∈ run, p passed.2 := by
  induction run generalizing s with
  | nil => simp [Along]
  | cons first rest ih => rw [Along, ih, List.forall_mem_cons]

/-- Two properties of steps agree along a run when they agree on every step that it can take, as
long as they hold. -/
theorem along_iff {step p q : σ → ι → σ → Prop} (inv : σ → Prop)
    (each : ∀ s i t, inv s → step s i t → (p s i t ↔ q s i t) ∧ (p s i t → inv t))
    (holds : inv s) (ran : Along step s run) : Along p s run ↔ Along q s run := by
  induction run generalizing s with
  | nil => exact Iff.rfl
  | cons first rest ih =>
    obtain ⟨stepped, further⟩ := ran
    obtain ⟨same, kept⟩ := each s first.1 first.2 holds stepped
    constructor
    · rintro ⟨here, later⟩
      exact ⟨same.mp here, (ih (kept here) further).mp later⟩
    · rintro ⟨here, later⟩
      have also := same.mpr here
      exact ⟨also, (ih (kept also) further).mpr later⟩

end Along

section Each
variable {α : Type}

/-- Every entry of a history is as those before it say. -/
inductive Each (P : List α → α → Prop) : List α → Prop where
  | nil : Each P []
  | concat {history : List α} {a : α} (before : Each P history) (holds : P history a) :
      Each P (history ++ [a])

theorem Each.split {P : List α → α → Prop} {history before after : List α} {a : α} (each : Each P history)
    (split : history = before ++ a :: after) : P before a := by
  induction each generalizing after with
  | nil => simp at split
  | concat earlier holds ih =>
    rcases List.eq_nil_or_concat after with rfl | ⟨rest, last, rfl⟩
    · obtain ⟨rfl, same⟩ := List.append_inj' split rfl
      obtain rfl := List.singleton_inj.mp same
      exact holds
    · rw [List.concat_eq_append, ← List.cons_append, ← List.append_assoc] at split
      exact ih (List.append_inj' split rfl).1

end Each

end SysHelo
