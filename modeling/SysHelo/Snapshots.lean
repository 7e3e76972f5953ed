import SysHelo.Threads

/-! What the IPC thread copies out is whole, however the two threads are interleaved. -/
namespace SysHelo.Threads
open Stdio
variable {s t : State}

/-- `configMutex` is held. -/
def Main.holdsConfig : Main → Bool
  | .waitRead _ | .waitUnlock _ | .checkLoaded | .checkTime | .closeLoaded | .closeValues _ | .loadTime
  | .browse | .loadDone | .refreshUnlock => true
  | _ => false

/-- `contextMutex` is held: from one end of a tick to the other. -/
def Main.holdsContext : Main → Bool
  | .idle => false
  | .waitLock inTick | .waitRead inTick | .waitUnlock inTick => inTick
  | _ => true

/-- The values may not be those of the last completed change. -/
def Main.writes : Main → Bool
  | .closeValues _ | .loadTime | .browse | .loadDone | .refreshUnlock => true
  | _ => false

/-- A load has cleared the flag and not yet set it. -/
def Main.unloaded : Main → Bool
  | .closeValues _ | .loadTime | .browse | .loadDone => true
  | _ => false

def Ipc.holdsConfig : Ipc → Bool
  | .hasLoadedRead _ | .hasLoadedUnlock _ _ _ | .getCopy _ _ | .getUnlock _ | .setSave _ | .setWrite _ _
  | .setUnlock _ => true
  | _ => false

def Ipc.holdsContext : Ipc → Bool
  | .contextEnabled | .contextApplication _ | .contextUnlock _ => true
  | _ => false

def Ipc.writes : Ipc → Bool
  | .setWrite _ _ | .setUnlock _ => true
  | _ => false

/-- A copy is what had been completed last by then; a configuration that is not loaded has never been. -/
def Answer.Right (lists : List SysHeloConfigValueList) (contexts : List SysHeloContext) : Answer → Prop
  | .configValues out completed => completed.head? = some out ∧ completed <:+ lists
  | .configNotLoaded looked => looked = false
  | .context out completed => completed.head? = some out ∧ completed <:+ contexts
  | .saved | .configSaveFailed => True

/-- What the IPC thread can rely on where it is. -/
def Ipc.Knows (s : State) : Ipc → Prop
  | .hasLoadedUnlock _ loaded looked | .hasLoaded _ loaded looked => loaded = looked
  | .getCopy remaining out => ∀ kval, kval ∉ remaining → out kval = s.config.configValues kval
  | .getUnlock out => s.lists.head? = some out
  | .contextApplication enabled => enabled = s.context.enabled
  | .contextUnlock out => s.contexts.head? = some out
  | .reply answer => answer.Right s.lists s.contexts
  | _ => True

/-- The main thread does nothing to what the IPC thread has, nor to what a lock keeps from it. -/
theorem stepMain_frame {input : MainInput} (stepped : stepMain s s.main input = some t) :
    t.ipc = s.ipc ∧ t.answers = s.answers ∧ s.lists <:+ t.lists ∧ s.contexts <:+ t.contexts ∧
      (s.configMutex = some .ipc → s.main.holdsConfig = false →
        t.configMutex = some .ipc ∧ t.config = s.config ∧ t.lists = s.lists) ∧
      (s.contextMutex = some .ipc → s.main.holdsContext = false →
        t.contextMutex = some .ipc ∧ t.context = s.context ∧ t.contexts = s.contexts) := by
  generalize place : s.main = main at stepped
  unfold stepMain at stepped
  split at stepped
  all_goals
    first
    | contradiction
    | obtain rfl := Option.some.inj stepped
      simp +contextual [Main.holdsConfig, Main.holdsContext]
    | obtain ⟨now, locked, rfl⟩ := Option.map_eq_some_iff.mp stepped
      obtain ⟨free, rfl⟩ := lock_eq_some.mp locked
      simp +contextual [free]

/-- The IPC thread does nothing to what the main thread has, nor to what a lock keeps from it. -/
theorem stepIpc_frame {input : IpcInput} (stepped : stepIpc s s.ipc input = some t) :
    t.main = s.main ∧ t.context = s.context ∧ t.contexts = s.contexts ∧ t.complete = s.complete ∧
      t.config.loaded = s.config.loaded ∧ s.lists <:+ t.lists ∧
      (s.configMutex = some .main → s.ipc.holdsConfig = false →
        t.configMutex = some .main ∧ t.config.configValues = s.config.configValues ∧ t.lists = s.lists) ∧
      (s.contextMutex = some .main → s.ipc.holdsContext = false → t.contextMutex = some .main) := by
  generalize place : s.ipc = ipc at stepped
  unfold stepIpc at stepped
  split at stepped
  all_goals
    first
    | contradiction
    | obtain rfl := Option.some.inj stepped
      simp +contextual [Ipc.holdsConfig, Ipc.holdsContext, Config.setEnabled]
    | obtain ⟨now, locked, rfl⟩ := Option.map_eq_some_iff.mp stepped
      obtain ⟨free, rfl⟩ := lock_eq_some.mp locked
      simp +contextual [free]

structure Safe (s : State) : Prop where
  configMain : s.main.holdsConfig → s.configMutex = some .main
  configIpc : s.ipc.holdsConfig → s.configMutex = some .ipc
  contextMain : s.main.holdsContext → s.contextMutex = some .main
  contextIpc : s.ipc.holdsContext → s.contextMutex = some .ipc
  values : s.main.writes = false → s.ipc.writes = false → s.lists.head? = some s.config.configValues
  loaded : s.main.unloaded = false → s.config.loaded = s.complete
  context : s.main.holdsContext = false → s.contexts.head? = some s.context
  knows : s.ipc.Knows s
  answers : ∀ answer ∈ s.answers, answer.1.Right s.lists s.contexts

theorem stepMain_own {input : MainInput} (safe : Safe s) (stepped : stepMain s s.main input = some t) :
    (t.main.holdsConfig → t.configMutex = some .main) ∧
      (t.main.holdsContext → t.contextMutex = some .main) ∧
      (t.main.writes = false → s.ipc.writes = false → t.lists.head? = some t.config.configValues) ∧
      (t.main.unloaded = false → t.config.loaded = t.complete) ∧
      (t.main.holdsContext = false → t.contexts.head? = some t.context) := by
  obtain ⟨configMain, -, contextMain, -, values, loaded, context, -, -⟩ := safe
  generalize place : s.main = main at stepped configMain contextMain values loaded context
  unfold stepMain at stepped
  split at stepped
  all_goals
    first
    | contradiction
    | obtain rfl := Option.some.inj stepped
      try simp only [apply_ite Main.holdsConfig, apply_ite Main.holdsContext, apply_ite Main.writes,
        apply_ite Main.unloaded]
      simp_all [Main.holdsConfig, Main.holdsContext, Main.writes, Main.unloaded]
    | obtain ⟨now, locked, rfl⟩ := Option.map_eq_some_iff.mp stepped
      obtain ⟨free, rfl⟩ := lock_eq_some.mp locked
      simp_all [Main.holdsConfig, Main.holdsContext, Main.writes, Main.unloaded]

namespace Safe

theorem config_apart (safe : Safe s) : ¬ (s.main.holdsConfig ∧ s.ipc.holdsConfig) := by
  rintro ⟨main, ipc⟩
  have both := (safe.configMain main).symm.trans (safe.configIpc ipc)
  contradiction

theorem context_apart (safe : Safe s) : ¬ (s.main.holdsContext ∧ s.ipc.holdsContext) := by
  rintro ⟨main, ipc⟩
  have both := (safe.contextMain main).symm.trans (safe.contextIpc ipc)
  contradiction

theorem config_main (safe : Safe s) (holds : s.ipc.holdsConfig) : s.main.holdsConfig = false :=
  Bool.eq_false_iff.mpr fun main => safe.config_apart ⟨main, holds⟩

theorem config_ipc (safe : Safe s) (holds : s.main.holdsConfig) : s.ipc.holdsConfig = false :=
  Bool.eq_false_iff.mpr fun ipc => safe.config_apart ⟨holds, ipc⟩

theorem context_main (safe : Safe s) (holds : s.ipc.holdsContext) : s.main.holdsContext = false :=
  Bool.eq_false_iff.mpr fun main => safe.context_apart ⟨main, holds⟩

theorem context_ipc (safe : Safe s) (holds : s.main.holdsContext) : s.ipc.holdsContext = false :=
  Bool.eq_false_iff.mpr fun ipc => safe.context_apart ⟨holds, ipc⟩

/-- While the IPC thread has `configMutex`, no load is under way, and no change is unfinished. -/
theorem settled (safe : Safe s) (holds : s.ipc.holdsConfig) :
    s.main.writes = false ∧ s.config.loaded = s.complete := by
  have free := safe.config_main holds
  have written : s.main.writes = false := by
    cases place : s.main <;> simp_all [Main.holdsConfig, Main.writes]
  have unloaded : s.main.unloaded = false := by
    cases place : s.main <;> simp_all [Main.holdsConfig, Main.unloaded]
  exact ⟨written, safe.loaded unloaded⟩

theorem rested (safe : Safe s) (holds : s.ipc.holdsContext) : s.contexts.head? = some s.context :=
  safe.context (safe.context_main holds)

end Safe

theorem stepIpc_own {input : IpcInput} (safe : Safe s) (stepped : stepIpc s s.ipc input = some t) :
    (t.ipc.holdsConfig → t.configMutex = some .ipc) ∧
      (t.ipc.holdsContext → t.contextMutex = some .ipc) ∧
      (s.main.writes = false → t.ipc.writes = false → t.lists.head? = some t.config.configValues) := by
  obtain ⟨-, configIpc, -, contextIpc, values, -, -, -, -⟩ := safe
  generalize place : s.ipc = ipc at stepped configIpc contextIpc values
  unfold stepIpc at stepped
  split at stepped
  all_goals
    first
    | contradiction
    | obtain rfl := Option.some.inj stepped
      try simp only [apply_ite Ipc.holdsConfig, apply_ite Ipc.holdsContext, apply_ite Ipc.writes]
      simp_all [Ipc.holdsConfig, Ipc.holdsContext, Ipc.writes, Config.setEnabled]
    | obtain ⟨now, locked, rfl⟩ := Option.map_eq_some_iff.mp stepped
      obtain ⟨free, rfl⟩ := lock_eq_some.mp locked
      simp_all [Ipc.holdsConfig, Ipc.holdsContext, Ipc.writes]

/-- A step of the IPC thread learns what it should: under a lock it sees what is settled. -/
theorem stepIpc_knows {input : IpcInput} (safe : Safe s) (stepped : stepIpc s s.ipc input = some t) :
    t.ipc.Knows t ∧ ∀ answer ∈ t.answers, answer ∈ s.answers ∨ s.ipc = .reply answer.1 := by
  have settled := safe.settled
  have rested := safe.rested
  obtain ⟨-, -, -, -, values, -, -, knows, -⟩ := safe
  generalize place : s.ipc = ipc at stepped values knows settled rested ⊢
  unfold stepIpc at stepped
  split at stepped
  all_goals
    first
    | contradiction
    | obtain rfl := Option.some.inj stepped
      try simp only [apply_ite Ipc.reply, apply_ite (Ipc.Knows _)]
      simp_all [Ipc.holdsConfig, Ipc.holdsContext, Ipc.writes, Ipc.Knows, Answer.Right,
        ← funext_iff (α := SysHeloConfigValue)]
    | obtain ⟨now, locked, rfl⟩ := Option.map_eq_some_iff.mp stepped
      simp_all [Ipc.Knows, SysHeloConfigValue.mem_all]

theorem Answer.Right.mono {lists lists' : List SysHeloConfigValueList}
    {contexts contexts' : List SysHeloContext} (moreLists : lists <:+ lists')
    (moreContexts : contexts <:+ contexts') {answer : Answer} (right : answer.Right lists contexts) :
    answer.Right lists' contexts' := by
  cases answer with
  | configValues out completed => exact ⟨right.1, right.2.trans moreLists⟩
  | context out completed => exact ⟨right.1, right.2.trans moreContexts⟩
  | configNotLoaded looked => exact right
  | saved | configSaveFailed => trivial

namespace Safe

theorem knows_main {input : MainInput} (safe : Safe s) (stepped : stepMain s s.main input = some t) :
    s.ipc.Knows t := by
  obtain ⟨-, -, moreLists, moreContexts, config, context⟩ := stepMain_frame stepped
  have knows := safe.knows
  have sameConfig (holds : s.ipc.holdsConfig) : t.config = s.config ∧ t.lists = s.lists :=
    (config (safe.configIpc holds) (safe.config_main holds)).2
  have sameContext (holds : s.ipc.holdsContext) : t.context = s.context ∧ t.contexts = s.contexts :=
    (context (safe.contextIpc holds) (safe.context_main holds)).2
  generalize s.ipc = ipc at knows sameConfig sameContext
  cases ipc with
  | getCopy remaining out => exact fun kval copied => (knows kval copied).trans (by rw [(sameConfig rfl).1])
  | getUnlock out => exact (congrArg List.head? (sameConfig rfl).2).trans knows
  | contextApplication enabled => exact Eq.trans knows (by rw [(sameContext rfl).1])
  | contextUnlock out => exact (congrArg List.head? (sameContext rfl).2).trans knows
  | reply answer => exact knows.mono moreLists moreContexts
  | hasLoadedUnlock request loaded looked | hasLoaded request loaded looked => exact knows
  | _ => trivial

theorem main {input : MainInput} (safe : Safe s) (stepped : stepMain s s.main input = some t) : Safe t := by
  obtain ⟨ipc, answers, moreLists, moreContexts, config, context⟩ := stepMain_frame stepped
  obtain ⟨configMain, contextMain, values, loaded, rested⟩ := stepMain_own safe stepped
  have knows := safe.knows_main stepped
  rw [← ipc] at values knows
  refine ⟨configMain, ?_, contextMain, ?_, values, loaded, rested, knows, ?_⟩
  · rw [ipc]
    intro holds
    exact (config (safe.configIpc holds) (safe.config_main holds)).1
  · rw [ipc]
    intro holds
    exact (context (safe.contextIpc holds) (safe.context_main holds)).1
  · rw [answers]
    intro answer member
    exact (safe.answers answer member).mono moreLists moreContexts

theorem ipc {input : IpcInput} (safe : Safe s) (stepped : stepIpc s s.ipc input = some t) : Safe t := by
  obtain ⟨main, context, contexts, complete, loaded, moreLists, config, contextLock⟩ :=
    stepIpc_frame stepped
  obtain ⟨configIpc, contextIpc, values⟩ := stepIpc_own safe stepped
  obtain ⟨knows, answers⟩ := stepIpc_knows safe stepped
  rw [← main] at values
  refine ⟨?_, configIpc, ?_, contextIpc, values, ?_, ?_, knows, ?_⟩
  · rw [main]
    intro holds
    exact (config (safe.configMain holds) (safe.config_ipc holds)).1
  · rw [main]
    intro holds
    exact contextLock (safe.contextMain holds) (safe.context_ipc holds)
  · rw [main, loaded, complete]
    exact safe.loaded
  · rw [main, context, contexts]
    exact safe.context
  · intro answer member
    have moreContexts : s.contexts <:+ t.contexts := contexts ▸ List.suffix_refl _
    rcases answers answer member with old | replied
    · exact (safe.answers answer old).mono moreLists moreContexts
    · have right := safe.knows
      rw [replied] at right
      exact right.mono moreLists moreContexts

theorem invariant : system.Invariant Safe where
  start s initial := by
    obtain ⟨enabled, rfl⟩ := initial
    exact ⟨nofun, nofun, nofun, nofun, fun _ _ => rfl, fun _ => rfl, fun _ => rfl, trivial, nofun⟩
  step s t safe taken := by
    obtain ⟨input, stepped⟩ := taken
    cases input with
    | main input => exact safe.main stepped
    | ipc input => exact safe.ipc stepped

end Safe

/-- In every reachable state, every list that has been copied out is the one that the last `Refresh` or
`SetConfigValues` completed by then had left (the first list when there was none), every context the one
that the last tick had left, and no request has been answered `ConfigNotLoaded` that looked after the first
completed load. -/
theorem answers_whole (reached : system.Reachable s) :
    ∀ answer ∈ s.answers, match answer.1 with
      | .configValues out completed => completed.head? = some out ∧ completed <:+ s.lists
      | .configNotLoaded looked => looked = false
      | .context out completed => completed.head? = some out ∧ completed <:+ s.contexts
      | .saved | .configSaveFailed => True := by
  intro answer member
  have right := (Safe.invariant.reachable reached).answers answer member
  obtain ⟨answer, late⟩ := answer
  cases answer <;> exact right

theorem run_reaches {inputs : List Input} {enabled : Bool}
    (ran : inputs.foldlM State.advance (start enabled) = some s) : system.Reachable s :=
  ⟨start enabled, ⟨enabled, rfl⟩, System.run_reaches (fun _ input _ stepped => ⟨input, stepped⟩) ran⟩

/-- The values are copied out after a load that has read one of them from the file. -/
theorem answers_whole_loaded : ∃ s : State,
    (∃ out completed, (.configValues out completed, true) ∈ s.answers ∧ out .tickIntervalMs = 500) ∧
    ∀ answer ∈ s.answers, match answer.1 with
      | .configValues out completed => completed.head? = some out ∧ completed <:+ s.lists
      | .configNotLoaded looked => looked = false
      | .context out completed => completed.head? = some out ∧ completed <:+ s.contexts
      | .saved | .configSaveFailed => True := by
  obtain ⟨s, ran, answered⟩ : ∃ s : State, List.foldlM State.advance (start false)
      [.main .go, .main .go, .main .go, .main (.application 0), .main .go, .main .go, .main .go,
        .main .go, .main .go, .main .go, .main (.stat (some 1)),
        .main (.entry (bytes "values") (bytes "tick_interval_ms") (bytes "500")), .main .go, .main .go,
        .main .go, .ipc (.request .getConfigValues), .ipc .go, .ipc .go, .ipc .go,
        .ipc (.buffer fun _ => 0), .ipc .go, .ipc .go, .ipc .go, .ipc .go, .ipc .go] = some s ∧
      ∃ out completed, (.configValues out completed, true) ∈ s.answers ∧ out .tickIntervalMs = 500 :=
    ⟨_, rfl, _, _, List.mem_cons_self, by decide⟩
  exact ⟨s, answered, answers_whole (run_reaches ran)⟩

/-- A request that has looked before the first load is answered after it. -/
theorem notLoaded_after_load :
    ∃ s : State, system.Reachable s ∧ (.configNotLoaded false, true) ∈ s.answers := by
  obtain ⟨s, ran, answered⟩ : ∃ s : State, List.foldlM State.advance (start false)
      [.ipc (.request .getConfigValues), .ipc .go, .ipc .go, .ipc .go,
        .main .go, .main .go, .main .go, .main (.application 0), .main .go, .main .go, .main .go,
        .main .go, .main .go, .main .go, .main (.stat none), .main .go, .main .go, .main .go,
        .ipc (.buffer fun _ => 0), .ipc .go] = some s ∧
      (.configNotLoaded false, true) ∈ s.answers := ⟨_, rfl, List.mem_cons_self⟩
  exact ⟨s, run_reaches ran, answered⟩

end SysHelo.Threads
