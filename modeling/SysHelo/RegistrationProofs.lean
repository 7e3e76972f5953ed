import SysHelo.Registration

/-! While no registration is handled during the window of a check, checks disturb nobody. -/
namespace SysHelo.Registration
variable {ι : Type} {name : SmServiceName} {s t : Registration ι}

/-- What is left of a check once it has registered the name. -/
def holding (name : SmServiceName) : Requests Bool := .unregister name fun _ => .done false

/-- Where a check can be, with what is then known about the name. -/
inductive Place (name : SmServiceName) (s : Registration ι) (c : ι) : Requests Bool → Prop where
  | called : Place name s c (sysheloIpcRunning name)
  | holds (owner : s.sm name = some (.client c)) : Place name s c (holding name)
  | free : Place name s c (.done false)
  | refused (seen : s.seen c) : Place name s c (.done true)

theorem Place.kept {c : ι} (place : Place name s c check)
    (owner : s.sm name = some (.client c) → t.sm name = some (.client c)) (seen : s.seen c → t.seen c) :
    Place name t c check := by
  cases place with
  | called => exact .called
  | holds has => exact .holds (owner has)
  | free => exact .free
  | refused saw => exact .refused (seen saw)

structure Consistent (name : SmServiceName) (s : Registration ι) : Prop where
  place : ∀ c check, s.checks c = some check → Place name s c check
  holder : ∀ c, s.sm name = some (.client c) → s.checks c = some (holding name)
  owned : s.sm name = some .sysmodule → s.sysmodule.isSome
  named : ∀ server, s.sysmodule = some server → server.srvName = name ∧ s.sm name = some .sysmodule
  watched : s.sm name = some .sysmodule → ∀ c check, s.checks c = some check → s.seen c
  outcomes : ∀ outcome ∈ s.outcomes, Fine outcome

namespace Consistent

theorem start (initial : Start name s) : Consistent name s := by
  obtain ⟨sm, sysmodule, checks, outcomes⟩ := initial
  refine ⟨?_, ?_, ?_, ?_, ?_, ?_⟩ <;> simp [sm, sysmodule, checks, outcomes]

variable [DecidableEq ι]

theorem forall_checks {checks : ι → Option (Requests Bool)} {c : ι} {now : Option (Requests Bool)}
    {P : ι → Requests Bool → Prop} (own : ∀ check, now = some check → P c check)
    (others : ∀ d check, d ≠ c → checks d = some check → P d check) :
    ∀ d check, Function.update checks c now d = some check → P d check := by
  intro d check here
  by_cases same : d = c
  · subst same
    rw [Function.update_self] at here
    exact own check here
  · rw [Function.update_of_ne same] at here
    exact others d check same here

theorem update_other {c d : ι} {now : Option (Requests Bool)} (has : s.checks d = some (holding name))
    (here : s.checks c = some check) (other : check ≠ holding name) :
    Function.update s.checks c now d = some (holding name) := by
  rw [Function.update_of_ne, has]
  rintro rfl
  exact other (Option.some.inj (here.symm.trans has))

theorem init (consistent : Consistent name s) (before : IpcServer) (port : Handle)
    (allowed : Undisturbed name s (.init before port))
    (stepped : s.step name (.init before port) = some t) : Consistent name t := by
  obtain ⟨place, holder, owned, named, watched, outcomes⟩ := consistent
  cases off : s.sysmodule with
  | some server => simp [step, off] at stepped
  | none =>
    have free : s.sm name = none := by
      cases owner : s.sm name with
      | none => rfl
      | some owner' =>
        cases owner' with
        | sysmodule => simpa [off] using owned owner
        | client c => exact absurd owner (allowed c)
    simp only [step, off, ipcServiceInit, Requests.handle, smRegisterService, free, ipcServerInit,
      MAX_WAIT_OBJECTS] at stepped
    simp only [Nat.reduceLT, Nat.reduceSub, gt_iff_lt, or_self, if_false, if_true,
      Option.some.injEq] at stepped
    subst stepped
    exact ⟨fun c check here => (place c check here).kept (by simp [free]) fun _ => rfl, by simp,
      by simp, by simp, fun _ _ _ _ => rfl, outcomes⟩

theorem exit (consistent : Consistent name s) (stepped : s.step name .exit = some t) :
    Consistent name t := by
  obtain ⟨place, holder, owned, named, watched, outcomes⟩ := consistent
  cases on : s.sysmodule with
  | none => simp [step, on] at stepped
  | some server =>
    obtain ⟨same, owner⟩ := named server on
    simp only [step, on, ipcServiceExit, Requests.handle, smUnregisterService, same,
      Option.some.injEq] at stepped
    subst stepped
    exact ⟨fun c check here => (place c check here).kept (by simp [owner]) id, by simp, by simp,
      by simp, by simp, outcomes⟩

theorem call (consistent : Consistent name s) (c : ι) (stepped : s.step name (.call c) = some t) :
    Consistent name t := by
  obtain ⟨place, holder, owned, named, watched, outcomes⟩ := consistent
  cases idle : s.checks c with
  | some check => simp [step, idle] at stepped
  | none =>
    simp only [step, idle, Option.some.injEq] at stepped
    subst stepped
    refine ⟨forall_checks ?_ ?_, fun d owner => ?_, owned, named, fun owner => forall_checks ?_ ?_, outcomes⟩
    · rintro _ ⟨⟩
      exact .called
    · intro d check other here
      refine (place d check here).kept id ?_
      intro seen
      dsimp only
      rwa [Function.update_of_ne other]
    · have has := holder d owner
      dsimp only
      rwa [Function.update_of_ne]
      rintro rfl
      simp [idle] at has
    · intro _ _
      dsimp only
      rw [Function.update_self]
      exact decide_eq_true owner
    · intro d check other here
      dsimp only
      rw [Function.update_of_ne other]
      exact watched owner d check here

/-- A check that asks for the name gets it, or is right to be refused. -/
theorem request_called (consistent : Consistent name s) {c : ι}
    (here : s.checks c = some (sysheloIpcRunning name)) (allowed : Undisturbed name s (.request c))
    (stepped : s.step name (.request c) = some t) : Consistent name t := by
  obtain ⟨place, holder, owned, named, watched, outcomes⟩ := consistent
  cases owner : s.sm name with
  | none =>
    simp only [step, here, sysheloIpcRunning, Requests.handle, smRegisterService, owner,
      Option.some.injEq] at stepped
    subst stepped
    refine ⟨forall_checks ?_ ?_, fun d owner' => ?_, ?_, ?_, ?_, outcomes⟩
    · rintro _ ⟨⟩
      exact .holds (Function.update_self ..)
    · intro d check other here
      exact (place d check here).kept (by simp [owner]) id
    · obtain rfl : c = d := by simpa using owner'
      exact Function.update_self ..
    · simp
    · intro server on
      exact absurd (owner.symm.trans (named server on).2) (by simp)
    · simp
  | some owner' =>
    simp only [step, here, sysheloIpcRunning, Requests.handle, smRegisterService, owner,
      Option.some.injEq] at stepped
    subst stepped
    have seen : s.seen c := by
      rcases allowed here with nobody | seen
      · cases owner' with
        | sysmodule => exact watched owner c _ here
        | client d => exact absurd owner (nobody d)
      · exact seen
    refine ⟨forall_checks ?_ ?_, fun d has => ?_, owned, named, fun has => forall_checks ?_ ?_, outcomes⟩
    · rintro _ ⟨⟩
      exact .refused seen
    · intro d check other here
      exact (place d check here).kept id id
    · exact update_other (holder d has) here nofun
    · intro _ _
      exact seen
    · intro d check _ here
      exact watched has d check here

theorem request (consistent : Consistent name s) (c : ι) (allowed : Undisturbed name s (.request c))
    (stepped : s.step name (.request c) = some t) : Consistent name t := by
  cases here : s.checks c with
  | none => simp [step, here] at stepped
  | some check =>
    cases consistent.place c check here with
    | called => exact consistent.request_called here allowed stepped
    | free => simp [step, here] at stepped
    | refused seen => simp [step, here] at stepped
    | holds owner =>
      obtain ⟨place, holder, owned, named, watched, outcomes⟩ := consistent
      simp only [step, here, holding, Requests.handle, smUnregisterService, Option.some.injEq] at stepped
      subst stepped
      refine ⟨forall_checks ?_ ?_, by simp, by simp, fun server on => ?_, by simp, outcomes⟩
      · rintro _ ⟨⟩
        exact .free
      · intro d check other here'
        refine (place d check here').kept (fun has => ?_) id
        exact absurd (Owner.client.inj (Option.some.inj (has.symm.trans owner))) other
      · exact absurd (owner.symm.trans (named server on).2) (by simp)

theorem answer (consistent : Consistent name s) (c : ι) (stepped : s.step name (.answer c) = some t) :
    Consistent name t := by
  cases here : s.checks c with
  | none => simp [step, here] at stepped
  | some check =>
    obtain ⟨place, holder, owned, named, watched, outcomes⟩ := consistent
    cases check with
    | register next | unregister next => simp [step, here] at stepped
    | done running =>
      simp only [step, here, Option.some.injEq] at stepped
      subst stepped
      refine ⟨forall_checks (by simp) fun d check _ here => (place d check here).kept id id,
        fun d has => update_other (holder d has) here nofun, owned, named,
        fun owner => forall_checks (by simp) fun d check _ => watched owner d check,
        List.forall_mem_cons.mpr ⟨?_, outcomes⟩⟩
      · intro said
        cases place c _ here with
        | free => simp at said
        | refused seen => exact seen

theorem invariant : (system name (@Undisturbed ι name)).Invariant (Consistent name) where
  start _ initial := start initial
  step s t consistent taken := by
    obtain ⟨action, allowed, stepped⟩ := taken
    cases action with
    | init before port => exact consistent.init before port allowed stepped
    | exit => exact consistent.exit stepped
    | call c => exact consistent.call c stepped
    | request c => exact consistent.request c allowed stepped
    | answer c => exact consistent.answer c stepped

end Consistent

variable [DecidableEq ι]

/-- In every run whose steps are undisturbed, every start and every check has been fine. -/
theorem run_fine (reached : (system name (Undisturbed name)).Reachable s) :
    ∀ outcome ∈ s.outcomes, Fine outcome :=
  (Consistent.invariant.reachable reached).outcomes

/-- A step that is disturbed makes a start fail, or a check say yes that has not seen the sysmodule. -/
theorem not_fine_of_disturbed {action : Action ι} (disturbed : ¬ Undisturbed name s action)
    (stepped : s.step name action = some t) :
    (∃ outcome ∈ t.outcomes, ¬ Fine outcome) ∨
      ∃ c u, t.step name (.answer c) = some u ∧ ∃ outcome ∈ u.outcomes, ¬ Fine outcome := by
  cases action with
  | init before port =>
    obtain ⟨c, owner⟩ : ∃ c, s.sm name = some (.client c) := by simpa [Undisturbed] using disturbed
    cases on : s.sysmodule with
    | some server => simp [step, on] at stepped
    | none =>
      have refused : (SmError_AlreadyRegistered = 0) = False := by decide
      simp only [step, on, ipcServiceInit, Requests.handle, smRegisterService, owner, ipcServerInit,
        MAX_WAIT_OBJECTS, Nat.reduceLT, Nat.reduceSub, gt_iff_lt, or_self, if_false, refused,
        Option.some.injEq] at stepped
      subst stepped
      exact .inl ⟨_, List.mem_cons_self, fun fine => fine c rfl⟩
  | request c =>
    obtain ⟨here, other⟩ := Classical.not_imp.mp disturbed
    rw [not_or] at other
    obtain ⟨⟨d, owner⟩, unseen⟩ : (∃ d, s.sm name = some (.client d)) ∧ ¬ s.seen c := by
      simpa using other
    simp only [step, here, sysheloIpcRunning, Requests.handle, smRegisterService, owner,
      Option.some.injEq] at stepped
    subst stepped
    refine .inr ⟨c, _, by simp only [step, Function.update_self]; rfl, _, List.mem_cons_self, ?_⟩
    intro fine
    exact unseen (fine rfl)
  | exit | call c | answer c => exact absurd trivial disturbed

/-- Nothing is running, and nobody is asking. -/
def idle : Registration Nat := ⟨fun _ => none, none, fun _ => none, fun _ => false, []⟩

theorem idle_start (name : SmServiceName) : Start name idle := ⟨rfl, rfl, fun _ => rfl, rfl⟩

/-- The sysmodule starts, and a client finds it running. -/
theorem run_fine_running : ∃ s : Registration Nat, s.outcomes = [.answered 0 true true] ∧
    ∀ outcome ∈ s.outcomes, Fine outcome := by
  have reached : (system 0 (Undisturbed 0)).Reachable _ := ⟨idle, idle_start 0,
    .head ⟨.init ⟨0, .replicate _ 0, 0, 0⟩ 7, nofun, rfl⟩ (.head ⟨.call 0, trivial, rfl⟩
      (.head ⟨.request 0, fun _ => .inr rfl, rfl⟩ (.single ⟨.answer 0, trivial, rfl⟩)))⟩
  exact ⟨_, rfl, run_fine reached⟩

def run (name : SmServiceName) (actions : List (Action ι)) (s : Registration ι) :
    Option (Registration ι) :=
  actions.foldlM (step name) s

theorem run_reaches {actions : List (Action ι)} (ran : run name actions s = some t) :
    Relation.ReflTransGen (system name fun _ _ => True).step s t :=
  System.run_reaches (fun _ action _ stepped => ⟨action, trivial, stepped⟩) ran

/-- A start fails while a client is in its check, and a second client takes the first for the
sysmodule. -/
theorem check_disturbs :
    (∃ s : Registration Nat, (system 0 fun _ _ => True).Reachable s ∧
      .initFailed (some (.client 0)) ∈ s.outcomes) ∧
    ∃ s : Registration Nat, (system 0 fun _ _ => True).Reachable s ∧
      .answered 1 true false ∈ s.outcomes := by
  constructor
  · obtain ⟨s, ran, failed⟩ : ∃ s, run 0 [.call 0, .request 0, .init ⟨0, .replicate _ 0, 0, 0⟩ 7] idle =
        some s ∧ .initFailed (some (.client 0)) ∈ s.outcomes := ⟨_, rfl, by decide⟩
    exact ⟨s, ⟨idle, idle_start 0, run_reaches ran⟩, failed⟩
  · obtain ⟨s, ran, wrong⟩ : ∃ s, run 0 [.call 0, .request 0, .call 1, .request 1, .answer 1] idle =
        some s ∧ .answered 1 true false ∈ s.outcomes := ⟨_, rfl, by decide⟩
    exact ⟨s, ⟨idle, idle_start 0, run_reaches ran⟩, wrong⟩

end SysHelo.Registration
