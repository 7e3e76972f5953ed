import Mathlib.Init

/-! Programs that may fail to return, as functions of a fuel. A result counts
when it is the same for every large enough fuel; a program diverges when no fuel
gives a result. -/
namespace SysHelo.Loop
variable {α β σ ρ : Type}

/-- A program reads the fuel its loops may spend; `none` means it ran out. -/
abbrev Program := ReaderT Nat Option

/-- What one pass through a loop body asks for. -/
inductive Pass (σ ρ : Type) where
  | next (state : σ)
  | done (result : ρ)

/-- `while (1)` around a body: one unit of fuel for each pass. -/
def loop (body : σ → Program (Pass σ ρ)) : σ → Program ρ := fun state fuel =>
  match fuel with
  | 0 => none
  | fuel + 1 =>
    match body state fuel with
    | none => none
    | some (.next state) => loop body state fuel
    | some (.done result) => some result

def Returns (program : Program α) (result : α) : Prop :=
  ∃ enough, ∀ fuel, enough ≤ fuel → program fuel = some result

def Diverges (program : Program α) : Prop :=
  ∀ fuel, program fuel = none

namespace Returns

theorem unique {program : Program α} (left : Returns program a) (right : Returns program b) :
    a = b := by
  obtain ⟨n, left⟩ := left
  obtain ⟨m, right⟩ := right
  have same := (left (max n m) (Nat.le_max_left _ _)).symm.trans
    (right (max n m) (Nat.le_max_right _ _))
  exact Option.some.inj same

theorem pure (a : α) : Returns (Pure.pure a : Program α) a :=
  ⟨0, fun _ _ => rfl⟩

theorem bind {program : Program α} {rest : α → Program β} (first : Returns program a)
    (second : Returns (rest a) b) : Returns (program >>= rest) b := by
  obtain ⟨n, first⟩ := first
  obtain ⟨m, second⟩ := second
  refine ⟨max n m, fun fuel enough => ?_⟩
  change (program fuel).bind (fun a => rest a fuel) = some b
  rw [first fuel (by omega), Option.bind_some, second fuel (by omega)]

/-- What is left of a sequence once its first part has returned. -/
theorem bind_inv {program : Program α} {rest : α → Program β} {b : β}
    (whole : Returns (program >>= rest) b) (first : Returns program a) :
    Returns (rest a) b := by
  obtain ⟨n, whole⟩ := whole
  obtain ⟨m, first⟩ := first
  refine ⟨max n m, fun fuel enough => ?_⟩
  have run := whole fuel (by omega)
  change (program fuel).bind (fun a => rest a fuel) = some b at run
  rwa [first fuel (by omega), Option.bind_some] at run

theorem loop_done {body : σ → Program (Pass σ ρ)} (pass : Returns (body s) (.done r)) :
    Returns (loop body s) r := by
  obtain ⟨n, pass⟩ := pass
  refine ⟨n + 1, fun fuel enough => ?_⟩
  obtain ⟨fuel, rfl⟩ : ∃ k, fuel = k + 1 := ⟨fuel - 1, by omega⟩
  simp only [loop, pass fuel (by omega)]

theorem loop_next {body : σ → Program (Pass σ ρ)} (pass : Returns (body s) (.next t))
    (rest : Returns (loop body t) r) : Returns (loop body s) r := by
  obtain ⟨n, pass⟩ := pass
  obtain ⟨m, rest⟩ := rest
  refine ⟨max n m + 1, fun fuel enough => ?_⟩
  obtain ⟨fuel, rfl⟩ : ∃ k, fuel = k + 1 := ⟨fuel - 1, by omega⟩
  simp only [loop, pass fuel (by omega)]
  exact rest fuel (by omega)

end Returns

/-- Whatever a program gives, it gives with this property. -/
def Ensures (program : Program α) (post : α → Prop) : Prop :=
  ∀ fuel a, program fuel = some a → post a

namespace Ensures

theorem of_returns {program : Program α} {post : α → Prop} (ensures : Ensures program post)
    (returns : Returns program a) : post a := by
  obtain ⟨n, returns⟩ := returns
  exact ensures n a (returns n (Nat.le_refl _))

theorem pure {post : α → Prop} (holds : post a) : Ensures (Pure.pure a : Program α) post := by
  intro fuel b run
  cases run
  exact holds

theorem bind {program : Program α} {rest : α → Program β} {P : α → Prop} {post : β → Prop}
    (first : Ensures program P) (second : ∀ a, P a → Ensures (rest a) post) :
    Ensures (program >>= rest) post := by
  intro fuel b run
  change (program fuel).bind (fun a => rest a fuel) = some b at run
  obtain ⟨a, ran, run⟩ := Option.bind_eq_some_iff.mp run
  exact second a (first fuel a ran) fuel b run

theorem bind_any {program : Program α} {rest : α → Program β} {post : β → Prop}
    (second : ∀ a, Ensures (rest a) post) : Ensures (program >>= rest) post :=
  bind (P := fun _ => True) (fun _ _ _ => trivial) fun a _ => second a

/-- An invariant of the loop body gives what holds of the loop's result. -/
theorem loop {body : σ → Program (Pass σ ρ)} {I : σ → Prop} {post : ρ → Prop}
    (pass : ∀ s, I s → Ensures (body s) fun
      | .next t => I t
      | .done r => post r) (start : I s) : Ensures (loop body s) post := by
  intro fuel r run
  induction fuel generalizing s with
  | zero => cases run
  | succ fuel ih =>
    simp only [Loop.loop] at run
    cases next : body s fuel with
    | none => simp only [next] at run; contradiction
    | some step =>
      have holds := pass s start fuel step next
      cases step with
      | next t => exact ih holds (by simpa only [next] using run)
      | done r' =>
        simp only [next, Option.some.injEq] at run
        exact run ▸ holds

end Ensures

/-- A program to which more fuel does no harm: what it gives, it keeps giving. -/
def Stable (program : Program α) : Prop :=
  ∀ n m a, n ≤ m → program n = some a → program m = some a

namespace Stable

theorem returns {program : Program α} (stable : Stable program) (run : program n = some a) :
    Returns program a :=
  ⟨n, fun fuel enough => stable n fuel a enough run⟩

/-- A result of a sequence comes from a result of its first part. -/
theorem bind_inv {program : Program α} {rest : α → Program β} {b : β} (stable : Stable program)
    (whole : Returns (program >>= rest) b) : ∃ a, Returns program a ∧ Returns (rest a) b := by
  obtain ⟨n, run⟩ := whole
  have first := run n (Nat.le_refl _)
  change (program n).bind (fun a => rest a n) = some b at first
  obtain ⟨a, ran, -⟩ := Option.bind_eq_some_iff.mp first
  have returns := stable.returns ran
  exact ⟨a, returns, Returns.bind_inv ⟨n, run⟩ returns⟩

theorem pure (a : α) : Stable (Pure.pure a : Program α) := fun _ _ _ _ run => run

theorem bind {program : Program α} {rest : α → Program β} (first : Stable program)
    (second : ∀ a, Stable (rest a)) : Stable (program >>= rest) := by
  intro n m b more run
  change (program n).bind (fun a => rest a n) = some b at run
  change (program m).bind (fun a => rest a m) = some b
  obtain ⟨a, ran, run⟩ := Option.bind_eq_some_iff.mp run
  rw [first n m a more ran, Option.bind_some]
  exact second a n m b more run

theorem loop {body : σ → Program (Pass σ ρ)} (stable : ∀ s, Stable (body s)) (s : σ) :
    Stable (loop body s) := by
  intro n m r more run
  induction n generalizing s m with
  | zero => cases run
  | succ n ih =>
    obtain ⟨m, rfl⟩ : ∃ k, m = k + 1 := ⟨m - 1, by omega⟩
    simp only [Loop.loop] at run ⊢
    cases pass : body s n with
    | none => simp only [pass] at run; contradiction
    | some step =>
      rw [stable s n m step (by omega) pass]
      cases step with
      | next t => exact ih t m (by omega) (by simpa only [pass] using run)
      | done r => simpa only [pass] using run

end Stable

namespace Diverges

theorem not_returns {program : Program α} (diverges : Diverges program) (a : α) :
    ¬ Returns program a := by
  rintro ⟨n, returns⟩
  have := returns n (Nat.le_refl _)
  rw [diverges n] at this
  contradiction

theorem bind {program : Program α} (diverges : Diverges program) (rest : α → Program β) :
    Diverges (program >>= rest) := by
  intro fuel
  change (program fuel).bind (fun a => rest a fuel) = none
  rw [diverges fuel, Option.bind_none]

theorem of_not_returns {program : Program α} (stable : Stable program)
    (never : ∀ a, ¬ Returns program a) : Diverges program := by
  intro fuel
  cases run : program fuel with
  | none => rfl
  | some a => exact False.elim (never a (stable.returns run))

/-- A state the body only ever leads back into its invariant is never left. -/
theorem loop_of_invariant {body : σ → Program (Pass σ ρ)} {I : σ → Prop}
    (stays : ∀ s fuel, I s → ∃ t, body s fuel = some (.next t) ∧ I t)
    (start : I s) : Diverges (loop body s) := by
  intro fuel
  induction fuel generalizing s with
  | zero => rfl
  | succ fuel ih =>
    obtain ⟨t, next, inv⟩ := stays s fuel start
    simp only [loop, next]
    exact ih inv

end Diverges

end SysHelo.Loop
