import SysHelo.Lib.Handles
import SysHelo.IpcServer
import Mathlib.Algebra.Ring.Nat
import Mathlib.Data.List.Induction
import Mathlib.Data.List.Infix

/-! The client's side of a session: the service it holds open, and the count of those who use it.
The calls are taken one after another; what the service manager answers is an argument. -/
namespace SysHelo
open Handles

/-- What `smGetService` gives: an error, or the handle of a session. -/
abbrev SmAnswer := Except { rc : Result // rc ≠ 0 } { session : Handle // session ≠ 0 }

/-- `g_sysheloSrv` is the handle of its session, or zero, and `g_refCnt` a number of 64 bits. -/
structure IpcClient where
  sysheloSrv : Handle
  refCnt : UInt64

/-- The calls that the client makes on the service manager and on a session. -/
inductive ClientEvent where
  | getService (answer : SmAnswer)
  | close (session : Handle)

def serviceIsActive (srv : Handle) : Bool := srv ≠ 0

namespace IpcClient

/-- Both variables are static. -/
def create : IpcClient := ⟨0, 0⟩

/-- What holds between two calls: there is a session exactly when somebody uses it. -/
def Linked (client : IpcClient) : Prop := serviceIsActive client.sysheloSrv ↔ client.refCnt ≠ 0

/-- libnx only closes a session that there is. -/
def serviceClose (client : IpcClient) : IpcClient × List ClientEvent :=
  ({ client with sysheloSrv := 0 },
    if serviceIsActive client.sysheloSrv then [.close client.sysheloSrv] else [])

def sysheloIpcExit (client : IpcClient) : IpcClient × List ClientEvent :=
  let client := { client with refCnt := client.refCnt - 1 }
  if client.refCnt = 0 then client.serviceClose else (client, [])

def sysheloIpcInitialize (answer : SmAnswer) (client : IpcClient) :
    IpcClient × Result × List ClientEvent :=
  let client := { client with refCnt := client.refCnt + 1 }
  if serviceIsActive client.sysheloSrv then (client, 0, [])
  else
    match answer with
    | .ok session => ({ client with sysheloSrv := session.1 }, 0, [.getService answer])
    | .error rc => (client.sysheloIpcExit.1, rc.1, .getService answer :: client.sysheloIpcExit.2)

theorem exit_eq (client : IpcClient) :
    client.sysheloIpcExit =
      if client.refCnt = 1 then { client with refCnt := 0 }.serviceClose
      else ({ client with refCnt := client.refCnt - 1 }, []) := by
  have last : client.refCnt - 1 = 0 ↔ client.refCnt = 1 := by
    rw [UInt64.sub_eq_iff_eq_add, UInt64.zero_add]
  unfold sysheloIpcExit
  by_cases one : client.refCnt = 1
  · simp [one]
  · simp only [last, one, if_false]

theorem sysheloIpcInitialize_active {client : IpcClient} (answer : SmAnswer)
    (active : serviceIsActive client.sysheloSrv) :
    client.sysheloIpcInitialize answer = ({ client with refCnt := client.refCnt + 1 }, 0, []) :=
  if_pos active

namespace Linked
variable {client : IpcClient}

theorem eq_create (linked : client.Linked) (idle : ¬ serviceIsActive client.sysheloSrv) :
    client = create := by
  obtain ⟨srv, count⟩ := client
  have closed : srv = 0 := by simpa [serviceIsActive] using idle
  have unused : count = 0 := not_not.mp (mt linked.mpr idle)
  rw [closed, unused, create]

theorem sysheloIpcInitialize_idle (linked : client.Linked) (idle : ¬ serviceIsActive client.sysheloSrv)
    (answer : SmAnswer) :
    client.sysheloIpcInitialize answer =
      match answer with
      | .ok session => (⟨session.1, 1⟩, 0, [.getService answer])
      | .error rc => (client, rc.1, [.getService answer]) := by
  obtain rfl := linked.eq_create idle
  cases answer with
  | ok session => rfl
  | error rc => rfl

end Linked

end IpcClient

/-- A call of a program, with what the service manager answers if it is asked. -/
inductive ClientCall where
  | init (answer : SmAnswer)
  | exit

namespace ClientCall

/-- The client after the call, and the calls it makes. -/
def run (client : IpcClient) : ClientCall → IpcClient × List ClientEvent
  | .init answer => ((client.sysheloIpcInitialize answer).1, (client.sysheloIpcInitialize answer).2.2)
  | .exit => client.sysheloIpcExit

/-- The call is an Initialize that returns zero. -/
def succeeds (client : IpcClient) : ClientCall → Bool
  | .init answer => (client.sysheloIpcInitialize answer).2.1 = 0
  | .exit => false

def isExit : ClientCall → Bool
  | .init _ => false
  | .exit => true

end ClientCall

/-- What some calls lead to: the client, how many Initializes have succeeded and how many Exits there
were, and all that was done to the sessions. -/
structure ClientRun where
  client : IpcClient
  successes : Nat
  exits : Nat
  events : List ClientEvent

namespace ClientRun

def start : ClientRun := ⟨.create, 0, 0, []⟩

def step (r : ClientRun) (call : ClientCall) : ClientRun where
  client := (call.run r.client).1
  successes := r.successes + (call.succeeds r.client).toNat
  exits := r.exits + call.isExit.toNat
  events := r.events ++ (call.run r.client).2

def run (calls : List ClientCall) : ClientRun := calls.foldl step start

/-- At each point there have been no more Exits than successful Initializes. -/
def Balanced (calls : List ClientCall) : Prop :=
  ∀ front, front <+: calls → (run front).exits ≤ (run front).successes

/-- At each point the difference of the two is a number of 64 bits. -/
def Countable (calls : List ClientCall) : Prop :=
  ∀ front, front <+: calls → (run front).successes < (run front).exits + 2 ^ 64

/-- What an event does to the handles that are open. -/
def sessionOps : ClientEvent → List (Op Handle)
  | .getService (.ok session) => [.acquire session.1]
  | .getService (.error _) => []
  | .close session => [.release session]

/-- The sessions that are open. -/
def sessions (client : IpcClient) : List Handle :=
  if serviceIsActive client.sysheloSrv then [client.sysheloSrv] else []

/-- The count is right, and owns the session. -/
structure Owned (r : ClientRun) : Prop where
  count : r.client.refCnt.toNat + r.exits = r.successes
  active : serviceIsActive r.client.sysheloSrv ↔ 0 < r.client.refCnt.toNat
  lawful : Lawful [] (r.events.flatMap sessionOps)
  opened : held [] (r.events.flatMap sessionOps) = sessions r.client

theorem start_owned : start.Owned where
  count := rfl
  active := by decide
  lawful := trivial
  opened := rfl

/-- What a call does to the open sessions is what it does to the client. -/
structure Carries (handles : List Handle) (after : IpcClient × List ClientEvent) : Prop where
  lawful : Lawful handles (after.2.flatMap sessionOps)
  opened : held handles (after.2.flatMap sessionOps) = sessions after.1

section Step
variable {r : ClientRun}

theorem Owned.linked (owned : r.Owned) : r.client.Linked := by
  rw [IpcClient.Linked, owned.active, ne_eq, ← UInt64.toNat_inj, UInt64.toNat_zero]
  exact Nat.pos_iff_ne_zero

theorem Owned.after (owned : r.Owned) {call : ClientCall}
    (count : (r.step call).client.refCnt.toNat + (r.step call).exits = (r.step call).successes)
    (linked : (r.step call).client.Linked) (carries : Carries (sessions r.client) (call.run r.client)) :
    (r.step call).Owned := by
  constructor
  · exact count
  · rw [show _ ↔ _ from linked, ne_eq, ← UInt64.toNat_inj, UInt64.toNat_zero, Nat.pos_iff_ne_zero]
  · rw [step, List.flatMap_append, lawful_append, owned.opened]
    exact ⟨owned.lawful, carries.lawful⟩
  · rw [step, List.flatMap_append, held_append, owned.opened]
    exact carries.opened

theorem Owned.init (owned : r.Owned) (answer : SmAnswer)
    (below : (r.step (.init answer)).successes < (r.step (.init answer)).exits + 2 ^ 64) :
    (r.step (.init answer)).Owned := by
  have count := owned.count
  by_cases active : serviceIsActive r.client.sysheloSrv
  · have same := IpcClient.sysheloIpcInitialize_active answer active
    simp only [step, ClientCall.succeeds, ClientCall.isExit, same, decide_true, Bool.toNat_true,
      Bool.toNat_false] at below
    have next : (r.client.refCnt + 1).toNat = r.client.refCnt.toNat + 1 := by
      rw [UInt64.toNat_add, Nat.mod_eq_of_lt (by rw [UInt64.toNat_one]; omega), UInt64.toNat_one]
    have used : r.client.refCnt + 1 ≠ 0 := by
      rw [ne_eq, ← UInt64.toNat_inj, next]
      exact Nat.succ_ne_zero _
    apply owned.after
    · simp only [step, ClientCall.run, ClientCall.succeeds, ClientCall.isExit, same, next, decide_true,
        Bool.toNat_true, Bool.toNat_false]
      omega
    · simp only [step, ClientCall.run, same]
      exact iff_of_true active used
    · simp only [ClientCall.run, same]
      exact ⟨trivial, rfl⟩
  · have idle := owned.linked.eq_create active
    have same := owned.linked.sysheloIpcInitialize_idle active answer
    have closed : sessions r.client = [] := if_neg active
    have unused : r.client.refCnt.toNat = 0 := by rw [idle, IpcClient.create, UInt64.toNat_zero]
    cases answer with
    | ok session =>
      have opens : serviceIsActive session.1 := decide_eq_true session.2
      apply owned.after
      · simp only [step, ClientCall.run, ClientCall.succeeds, ClientCall.isExit, same, decide_true,
          Bool.toNat_true, Bool.toNat_false, UInt64.toNat_one]
        omega
      · simp only [step, ClientCall.run, same]
        exact iff_of_true opens (show (1 : UInt64) ≠ 0 by decide)
      · simp only [ClientCall.run, same, closed]
        exact ⟨⟨List.not_mem_nil, trivial⟩, (if_pos opens).symm⟩
    | error rc =>
      have failed : ¬ rc.1 = 0 := rc.2
      apply owned.after
      · simp only [step, ClientCall.run, ClientCall.succeeds, ClientCall.isExit, same, failed, decide_false,
          Bool.toNat_false]
        omega
      · simp only [step, ClientCall.run, same]
        exact owned.linked
      · simp only [ClientCall.run, same, closed]
        exact ⟨trivial, (if_neg active).symm⟩

theorem Owned.exit (owned : r.Owned) (balanced : (r.step .exit).exits ≤ (r.step .exit).successes) :
    (r.step .exit).Owned := by
  have count := owned.count
  simp only [step, ClientCall.succeeds, ClientCall.isExit, Bool.toNat_true, Bool.toNat_false] at balanced
  have used : 0 < r.client.refCnt.toNat := by omega
  have active := owned.active.mpr used
  have same := IpcClient.exit_eq r.client
  by_cases last : r.client.refCnt = 1
  · rw [if_pos last] at same
    rw [last, UInt64.toNat_one] at count
    apply owned.after
    · simp only [step, ClientCall.run, ClientCall.succeeds, ClientCall.isExit, same, IpcClient.serviceClose,
        Bool.toNat_true, Bool.toNat_false, UInt64.toNat_zero]
      omega
    · simp only [step, ClientCall.run, same, IpcClient.serviceClose, IpcClient.Linked]
      decide
    · simp only [ClientCall.run, same, IpcClient.serviceClose, sessions, if_pos active]
      exact ⟨⟨List.mem_singleton_self _, trivial⟩, List.erase_cons_head ..⟩
  · rw [if_neg last] at same
    have less : (r.client.refCnt - 1).toNat = r.client.refCnt.toNat - 1 :=
      UInt64.toNat_sub_of_le _ _ (UInt64.le_iff_toNat_le.mpr used)
    have others : r.client.refCnt - 1 ≠ 0 := by
      rw [ne_eq, UInt64.sub_eq_iff_eq_add, UInt64.zero_add]
      exact last
    apply owned.after
    · simp only [step, ClientCall.run, ClientCall.succeeds, ClientCall.isExit, same, less, Bool.toNat_true,
        Bool.toNat_false]
      omega
    · simp only [step, ClientCall.run, same]
      exact iff_of_true active others
    · simp only [ClientCall.run, same]
      exact ⟨trivial, rfl⟩

end Step

theorem run_concat (calls : List ClientCall) (call : ClientCall) :
    run (calls ++ [call]) = (run calls).step call :=
  List.foldl_concat ..

theorem owned_of_balanced {calls : List ClientCall} (balanced : Balanced calls)
    (countable : Countable calls) :
    (run calls).Owned := by
  induction calls using List.reverseRecOn with
  | nil => exact start_owned
  | append_singleton calls call ih =>
    have owned := ih (fun front before => balanced front (before.trans (List.prefix_append ..)))
      (fun front before => countable front (before.trans (List.prefix_append ..)))
    have whole := List.prefix_refl (calls ++ [call])
    have enough := balanced _ whole
    have below := countable _ whole
    rw [run_concat] at enough below ⊢
    cases call with
    | init answer => exact owned.init answer below
    | exit => exact owned.exit enough

theorem close_iff {client : IpcClient} (linked : client.Linked) (call : ClientCall) (session : Handle) :
    .close session ∈ (call.run client).2 ↔
      call = .exit ∧ session = client.sysheloSrv ∧ (call.run client).1.refCnt = 0 := by
  cases call with
  | init answer =>
    refine iff_of_false ?_ (by simp)
    by_cases active : serviceIsActive client.sysheloSrv
    · simp [ClientCall.run, IpcClient.sysheloIpcInitialize_active answer active]
    · simp only [ClientCall.run, linked.sysheloIpcInitialize_idle active answer]
      cases answer <;> simp
  | exit =>
    have same := IpcClient.exit_eq client
    by_cases last : client.refCnt = 1
    · have used : client.refCnt ≠ 0 := by
        rw [last]
        decide
      rw [if_pos last] at same
      simp [ClientCall.run, same, IpcClient.serviceClose, linked.mpr used]
    · have others : client.refCnt - 1 ≠ 0 := by
        rw [ne_eq, UInt64.sub_eq_iff_eq_add, UInt64.zero_add]
        exact last
      rw [if_neg last] at same
      simp [ClientCall.run, same, others]

theorem getService_idle (client : IpcClient) (call : ClientCall) {answer : SmAnswer}
    (asked : .getService answer ∈ (call.run client).2) : ¬ serviceIsActive client.sysheloSrv := by
  intro active
  cases call with
  | init given => simp [ClientCall.run, IpcClient.sysheloIpcInitialize_active given active] at asked
  | exit =>
    simp only [ClientCall.run, IpcClient.exit_eq, IpcClient.serviceClose] at asked
    split at asked <;> simp at asked

theorem failed_unchanged {client : IpcClient} (linked : client.Linked) {answer : SmAnswer}
    (failed : (client.sysheloIpcInitialize answer).2.1 ≠ 0) :
      (client.sysheloIpcInitialize answer).1 = client := by
  by_cases active : serviceIsActive client.sysheloSrv
  · rw [IpcClient.sysheloIpcInitialize_active answer active] at failed
    contradiction
  · rw [linked.sysheloIpcInitialize_idle active answer] at failed ⊢
    cases answer with
    | ok session => contradiction
    | error rc => rfl

/-- While the number of users is one of 64 bits, it is the count, and the session is open while there
are users: it is opened by the first and closed, once, by the last. -/
theorem run_counted {calls : List ClientCall} (balanced : Balanced calls) (countable : Countable calls) :
    let r := run calls
    let ops := r.events.flatMap sessionOps
    r.client.refCnt.toNat + r.exits = r.successes ∧
      (serviceIsActive r.client.sysheloSrv ↔ 0 < r.successes - r.exits) ∧
      Lawful [] ops ∧
      (∀ session, ops.count (.acquire session) = ops.count (.release session) +
        if serviceIsActive r.client.sysheloSrv ∧ r.client.sysheloSrv = session then 1 else 0) ∧
      (∀ answer, (r.client.sysheloIpcInitialize answer).2.1 ≠ 0 →
        (r.client.sysheloIpcInitialize answer).1 = r.client) ∧
      (∀ (call : ClientCall) answer, .getService answer ∈ (call.run r.client).2 →
        ¬ serviceIsActive r.client.sysheloSrv) ∧
      ∀ (call : ClientCall) session, .close session ∈ (call.run r.client).2 ↔
        call = .exit ∧ session = r.client.sysheloSrv ∧ (call.run r.client).1.refCnt = 0 := by
  intro r ops
  have owned : r.Owned := owned_of_balanced balanced countable
  have count := owned.count
  refine ⟨count, ?_, owned.lawful, fun session => ?_, fun _ => failed_unchanged owned.linked,
    fun call _ => getService_idle r.client call, close_iff owned.linked⟩
  · rw [owned.active]
    omega
  · have balance := owned.lawful.balance session
    rw [owned.opened, List.count_nil, Nat.zero_add] at balance
    refine balance.trans (congrArg _ ?_)
    unfold sessions
    by_cases active : serviceIsActive r.client.sysheloSrv
    · simp [active, List.count_singleton]
    · simp [active]

instance (calls : List ClientCall) : Decidable (Balanced calls) :=
  decidable_of_iff (∀ front ∈ calls.inits, (run front).exits ≤ (run front).successes) (by
    simp only [List.mem_inits, Balanced])

instance (calls : List ClientCall) : Decidable (Countable calls) :=
  decidable_of_iff (∀ front ∈ calls.inits, (run front).successes < (run front).exits + 2 ^ 64)
    (by simp only [List.mem_inits, Countable])

theorem run_counted_nested :
    let r := run [.init (.error ⟨1, by decide⟩), .init (.ok ⟨5, by decide⟩),
      .init (.ok ⟨6, by decide⟩), .exit]
    let ops := r.events.flatMap sessionOps
    r.client.refCnt.toNat + r.exits = r.successes ∧
      (serviceIsActive r.client.sysheloSrv ↔ 0 < r.successes - r.exits) ∧
      Lawful [] ops ∧
      (∀ session, ops.count (.acquire session) = ops.count (.release session) +
        if serviceIsActive r.client.sysheloSrv ∧ r.client.sysheloSrv = session then 1 else 0) ∧
      (∀ answer, (r.client.sysheloIpcInitialize answer).2.1 ≠ 0 →
        (r.client.sysheloIpcInitialize answer).1 = r.client) ∧
      (∀ (call : ClientCall) answer, .getService answer ∈ (call.run r.client).2 →
        ¬ serviceIsActive r.client.sysheloSrv) ∧
      ∀ (call : ClientCall) session, .close session ∈ (call.run r.client).2 ↔
        call = .exit ∧ session = r.client.sysheloSrv ∧ (call.run r.client).1.refCnt = 0 :=
  @run_counted [.init (.error ⟨1, by decide⟩), .init (.ok ⟨5, by decide⟩), .init (.ok ⟨6, by decide⟩), .exit]
    (by decide) (by decide)

theorem run_replicate (session : { session : Handle // session ≠ 0 }) (n : Nat) :
    let r := run (List.replicate (n + 1) (.init (.ok session)))
    r.client = ⟨session.1, UInt64.ofNat (n + 1)⟩ ∧ r.successes = n + 1 ∧ r.exits = 0 := by
  have opens : serviceIsActive session.1 := decide_eq_true session.2
  induction n with
  | zero => exact ⟨rfl, rfl, rfl⟩
  | succ n ih =>
    obtain ⟨client, successes, exits⟩ := ih
    rw [List.replicate_succ', run_concat]
    have same := @IpcClient.sysheloIpcInitialize_active ⟨session.1, UInt64.ofNat (n + 1)⟩ (.ok session) opens
    simp only [step, ClientCall.run, ClientCall.succeeds, ClientCall.isExit, client, same, successes, exits]
    refine ⟨?_, rfl, rfl⟩
    rw [UInt64.ofNat_add (n + 1) 1]
    rfl

theorem run_exits (calls : List ClientCall) : (run calls).exits = calls.countP ClientCall.isExit := by
  induction calls using List.reverseRecOn with
  | nil => rfl
  | append_singleton calls call ih =>
    rw [run_concat, List.countP_append, List.countP_singleton, ← ih, step]
    cases call <;> rfl

/-- The number of users is not bounded by anything but the count's 64 bits. -/
theorem refCnt_wraps : ∃ calls, Balanced calls ∧
    ¬ (run calls).client.refCnt.toNat + (run calls).exits = (run calls).successes ∧
    (run calls).client.refCnt = 0 ∧ serviceIsActive (run calls).client.sysheloSrv := by
  obtain ⟨client, successes, exits⟩ := run_replicate ⟨1, by decide⟩ (2 ^ 64 - 1)
  have zero : UInt64.ofNat (2 ^ 64 - 1 + 1) = 0 := by decide
  refine ⟨List.replicate (2 ^ 64 - 1 + 1) (.init (.ok ⟨1, by decide⟩)), fun front before => ?_, ?_⟩
  · have none : front.countP ClientCall.isExit = 0 :=
      List.countP_eq_zero.mpr fun call member => by
        rw [List.eq_of_mem_replicate (before.mem member)]
        decide
    rw [run_exits, none]
    exact Nat.zero_le _
  · rw [client, successes, exits, zero]
    exact ⟨by decide, rfl, by decide⟩

end ClientRun

end SysHelo
