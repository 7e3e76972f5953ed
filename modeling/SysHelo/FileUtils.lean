import SysHelo.IpcServer
import SysHelo.Lib.Stdio
import SysHelo.Lib.System
import SysHelo.Lib.Throttle

/-! The log. Whether lines are written depends on a flag file, which is looked for only now and then. -/
namespace SysHelo
open Stdio Throttle

def FILE_FLAG_CHECK_INTERVAL_NS : UInt64 := 5000000000

/-- `TARGET` -/
def target : List UInt8 := bytes "sys-helo"

/-- The static variables of `FileUtils`. -/
structure FileUtils where
  hasInitialized : Bool
  logEnabled : Bool
  lastFlagCheck : UInt64

namespace FileUtils

def create : FileUtils := ⟨false, false, 0⟩

/-- `flag` is whether the flag file can be opened now. -/
def refreshFlags (force : Bool) (now : UInt64) (flag : Bool) (utils : FileUtils) : FileUtils :=
  if !force && now - utils.lastFlagCheck < FILE_FLAG_CHECK_INTERVAL_NS then utils
  else { utils with logEnabled := flag, lastFlagCheck := now }

/-- What is appended to the log, if anything: `stamp` is the time as it is printed, and `opened` whether
the log can be opened. -/
def logLine (now : UInt64) (flag opened : Bool) (stamp line : List UInt8) (utils : FileUtils) :
    FileUtils × Option (List UInt8) :=
  if utils.hasInitialized then
    let utils := utils.refreshFlags false now flag
    (utils, if utils.logEnabled ∧ opened then some (stamp ++ line ++ bytes "\n") else none)
  else (utils, none)

/-- `Initialize`. The first of the three calls that fails decides; with all of them done, the flag is
looked for and the first line is logged. -/
def init (timeResult fsResult mountResult : Result) (targetVersion : List UInt8) (now now' : UInt64)
    (flag flag' opened : Bool) (stamp : List UInt8) (utils : FileUtils) :
    Result × FileUtils × Option (List UInt8) :=
  if timeResult ≠ 0 then (timeResult, utils, none)
  else if fsResult ≠ 0 then (fsResult, utils, none)
  else if mountResult ≠ 0 then (mountResult, utils, none)
  else
    let utils := { utils.refreshFlags true now flag with hasInitialized := true }
    (0, utils.logLine now' flag' opened stamp
      (bytes "=== " ++ target ++ bytes " " ++ targetVersion ++ bytes " ==="))

def exit (utils : FileUtils) : FileUtils :=
  if !utils.hasInitialized then utils else { utils with hasInitialized := false, logEnabled := false }

end FileUtils

/-- A line that is to be logged: when, whether the log can be opened, and whether it was written. -/
structure LogCall where
  now : UInt64
  opened : Bool
  written : Bool

inductive LogMoment where
  | initialized
  | logged (call : LogCall)
  | exited

/-- The variables, the time of the last call, and what has been called. -/
structure LogRun where
  utils : FileUtils
  now : UInt64
  history : List LogMoment

namespace LogRun

def start : LogRun := ⟨.create, 0, []⟩

/-- The calls come one after the other, and time does not go back. -/
inductive Step (flag : UInt64 → Bool) : LogRun → LogRun → Prop where
  | logged (later : run.now ≤ t) (logs : run.utils.logLine t (flag t) opened stamp line = (utils', out)) :
      Step flag run ⟨utils', t, run.history ++ [.logged ⟨t, opened, out.isSome⟩]⟩
  | initialized (t t' : UInt64) (later : run.now ≤ t) (later' : t ≤ t')
      (succeeds : run.utils.init timeResult fsResult mountResult targetVersion t t' (flag t)
        (flag t') opened stamp =
        (0, utils', out)) :
      Step flag run ⟨utils', t', run.history ++ [.initialized, .logged ⟨t', opened, out.isSome⟩]⟩
  | uninitialized (later : run.now ≤ t) (failed : rc ≠ 0)
      (fails : run.utils.init timeResult fsResult mountResult targetVersion t t' (flag t)
        (flag t') opened stamp =
        (rc, utils', out)) :
      Step flag run { run with utils := utils', now := t }
  | exited (later : run.now ≤ t) :
      Step flag run ⟨run.utils.exit, t, run.history ++ [.exited]⟩

def system (flag : UInt64 → Bool) : System LogRun where
  start run := run = start
  step := Step flag

/-- Whether the last call of `Initialize` or `Exit` was one of `Initialize` that has succeeded. -/
def ready (history : List LogMoment) : Bool :=
  history.foldl (fun ready moment => match moment with
    | .initialized => true
    | .logged _ => ready
    | .exited => false) false

/-- A line is only written between `Initialize` and `Exit`; there it is as the flag was at some time of the
last five seconds. -/
structure Judged (flag : UInt64 → Bool) (before : List LogMoment) (call : LogCall) : Prop where
  needed : call.written → ready before ∧ call.opened
  flagged : ready before → call.opened → ∃ t, t ≤ call.now ∧
    call.now.toNat < t.toNat + FILE_FLAG_CHECK_INTERVAL_NS.toNat ∧ call.written = flag t

end LogRun

namespace FileUtils
variable {utils utils' : FileUtils} {now : UInt64} {flag : UInt64 → Bool}

def reading (utils : FileUtils) : Reading Bool := ⟨utils.logEnabled, utils.lastFlagCheck.toNat⟩

/-- The flag file, as far as time is counted. -/
def source (flag : UInt64 → Bool) (t : Nat) : Bool := flag (.ofNat t)

theorem source_toNat (flag : UInt64 → Bool) (t : UInt64) : source flag t.toNat = flag t := by
  rw [source, UInt64.ofNat_toNat]

/-- As long as time does not go back, the difference of the times does not wrap. -/
theorem refreshFlags_renew (past : utils.lastFlagCheck ≤ now) (force value : Bool) :
    (utils.refreshFlags force now value).reading =
        renew FILE_FLAG_CHECK_INTERVAL_NS.toNat force now.toNat value utils.reading ∧
      (utils.refreshFlags force now value).hasInitialized = utils.hasInitialized := by
  have elapsed : (now - utils.lastFlagCheck).toNat = now.toNat - utils.lastFlagCheck.toNat :=
    UInt64.toNat_sub_of_le _ _ past
  have order := UInt64.le_iff_toNat_le.mp past
  have kept : (!force && decide (now - utils.lastFlagCheck < FILE_FLAG_CHECK_INTERVAL_NS)) = true ↔
      ¬ Due FILE_FLAG_CHECK_INTERVAL_NS.toNat force now.toNat utils.reading := by
    simp only [Due, reading, Bool.and_eq_true, Bool.not_eq_true', decide_eq_true_eq,
      UInt64.lt_iff_toNat_lt, elapsed]
    cases force
    · simp
      omega
    · simp
  unfold refreshFlags renew
  split
  · rename_i stays
    rw [if_neg (kept.mp stays)]
    exact ⟨rfl, rfl⟩
  · rename_i looks
    rw [if_pos (Decidable.not_not.mp (mt kept.mpr looks))]
    exact ⟨rfl, rfl⟩

theorem logLine_judged (taken : Taken (source flag) now.toNat utils.reading) (ready : utils.hasInitialized)
    (opened : Bool) (stamp line : List UInt8) :
    Taken (source flag) now.toNat (utils.logLine now (flag now) opened stamp line).1.reading ∧
      (utils.logLine now (flag now) opened stamp line).1.hasInitialized ∧ (opened → ∃ t, t ≤ now ∧
        now.toNat < t.toNat + FILE_FLAG_CHECK_INTERVAL_NS.toNat ∧
        (utils.logLine now (flag now) opened stamp line).2.isSome = flag t) := by
  obtain ⟨renewed, still⟩ := refreshFlags_renew (UInt64.le_iff_toNat_le.mpr taken.past) false (flag now)
  have fresh := renew_fresh (show 0 < FILE_FLAG_CHECK_INTERVAL_NS.toNat by decide) taken false
  rw [source_toNat, ← renewed] at fresh
  simp only [logLine, ready, if_true]
  refine ⟨fresh.toTaken, still.trans ready, fun opens => ?_⟩
  refine ⟨(utils.refreshFlags false now (flag now)).lastFlagCheck, UInt64.le_iff_toNat_le.mpr fresh.past,
    fresh.young, ?_⟩
  have value : (utils.refreshFlags false now (flag now)).logEnabled =
      source flag (utils.refreshFlags false now (flag now)).lastFlagCheck.toNat := fresh.value
  rw [source_toNat] at value
  rw [← value, opens]
  cases (utils.refreshFlags false now (flag now)).logEnabled <;> rfl

theorem logLine_unready (unready : utils.hasInitialized = false) (value opened : Bool)
    (stamp line : List UInt8) :
    utils.logLine now value opened stamp line = (utils, none) := by
  rw [logLine, unready]
  rfl

end FileUtils

namespace LogRun
open FileUtils
variable {flag : UInt64 → Bool} {run run' : LogRun}

/-- While the log is ready, its flag was looked for at some time, and every line has been judged. -/
structure Sound (flag : UInt64 → Bool) (run : LogRun) : Prop where
  ready : run.utils.hasInitialized = ready run.history
  taken : run.utils.hasInitialized → Taken (source flag) run.now.toNat run.utils.reading
  judged : Each (fun before moment => ∀ call, moment = .logged call → Judged flag before call) run.history

@[simp] theorem ready_append (history : List LogMoment) (moment : LogMoment) :
    LogRun.ready (history ++ [moment]) = match moment with
      | .initialized => true
      | .logged _ => LogRun.ready history
      | .exited => false := by
  simp [LogRun.ready]

theorem Sound.logged {utils : FileUtils} {now : UInt64} {history : List LogMoment}
    (sound : Sound flag ⟨utils, now, history⟩)
    {utils' : FileUtils} {out : Option (List UInt8)} {opened : Bool} {stamp line : List UInt8}
    (logs : utils.logLine now (flag now) opened stamp line = (utils', out)) :
    Sound flag ⟨utils', now, history ++ [.logged ⟨now, opened, out.isSome⟩]⟩ := by
  cases known : utils.hasInitialized with
  | false =>
    obtain ⟨rfl, rfl⟩ := Prod.mk.inj ((logLine_unready known ..).symm.trans logs)
    have unready : LogRun.ready history = false := sound.ready.symm.trans known
    refine ⟨?_, sound.taken, .concat sound.judged ?_⟩
    · rw [ready_append]
      exact sound.ready
    · rintro call same
      obtain rfl := LogMoment.logged.inj same
      exact ⟨fun bad => by contradiction, fun bad => by rw [unready] at bad; contradiction⟩
  | true =>
    obtain ⟨taken, still, flagged⟩ := logLine_judged (sound.taken known) known opened stamp line
    rw [logs] at taken still flagged
    have is : LogRun.ready history = true := sound.ready.symm.trans known
    refine ⟨?_, fun _ => taken, .concat sound.judged ?_⟩
    · rw [ready_append]
      exact still.trans is.symm
    · rintro call same
      obtain rfl := LogMoment.logged.inj same
      refine ⟨fun wrote => ⟨is, ?_⟩, fun _ opens => flagged opens⟩
      cases opened with
      | true => rfl
      | false =>
        simp only [logLine, known, if_true, Bool.false_eq_true, and_false, if_false] at logs
        obtain ⟨-, rfl⟩ := Prod.mk.inj logs
        contradiction

/-- `Initialize` changes nothing unless it succeeds; then the flag has been looked for, and the first line is
logged. -/
theorem init_cases {utils utils' : FileUtils} {timeResult fsResult mountResult rc : Result}
    {targetVersion : List UInt8} {now now' : UInt64} {value value' opened : Bool} {stamp : List UInt8}
      {out : Option (List UInt8)}
    (inits : utils.init timeResult fsResult mountResult targetVersion now now' value value' opened stamp =
      (rc, utils', out)) :
    rc ≠ 0 ∧ utils' = utils ∨
      rc = 0 ∧ ∃ line, FileUtils.logLine now' value' opened stamp line ⟨true, value, now⟩ =
        (utils', out) := by
  unfold FileUtils.init at inits
  split at inits
  · obtain ⟨rfl, rfl, -⟩ := inits
    exact .inl ⟨‹_›, rfl⟩
  split at inits
  · obtain ⟨rfl, rfl, -⟩ := inits
    exact .inl ⟨‹_›, rfl⟩
  split at inits
  · obtain ⟨rfl, rfl, -⟩ := inits
    exact .inl ⟨‹_›, rfl⟩
  · obtain ⟨rfl, logs⟩ := Prod.mk.inj inits
    exact .inr ⟨rfl, _, logs⟩

theorem Sound.later {utils : FileUtils} {now now' : UInt64} {history : List LogMoment}
    (sound : Sound flag ⟨utils, now, history⟩) (later : now ≤ now') : Sound flag ⟨utils, now', history⟩ :=
  ⟨sound.ready, fun known => (sound.taken known).later (UInt64.le_iff_toNat_le.mp later), sound.judged⟩

theorem Sound.step (sound : Sound flag run) (taken : Step flag run run') : Sound flag run' := by
  cases taken with
  | logged later logs => exact (sound.later later).logged logs
  | initialized t t' later later' succeeds =>
    obtain ⟨bad, -⟩ | ⟨-, line, logs⟩ := init_cases succeeds
    · exact absurd rfl bad
    have ready : Sound flag ⟨⟨true, flag t, t⟩, t, run.history ++ [.initialized]⟩ := by
      refine ⟨?_, fun _ => ⟨(source_toNat flag t).symm, Nat.le_refl _⟩, .concat sound.judged ?_⟩
      · rw [ready_append]
      · intro call bad
        contradiction
    have written := (ready.later later').logged logs
    rwa [List.append_assoc] at written
  | uninitialized later failed fails =>
    obtain ⟨-, rfl⟩ | ⟨bad, -⟩ := init_cases fails
    · exact sound.later later
    · exact absurd bad failed
  | exited later =>
    refine ⟨?_, fun known => ?_, .concat sound.judged fun call bad => by contradiction⟩
    · rw [ready_append, FileUtils.exit]
      split
      · rename_i unready
        simpa using unready
      · rfl
    · rw [FileUtils.exit] at known
      split at known
      · rename_i unready
        rw [Bool.not_eq_true'] at unready
        rw [unready] at known
        contradiction
      · contradiction

theorem Sound.invariant : (system flag).Invariant (Sound flag) where
  start run initial := by
    subst initial
    exact ⟨rfl, fun bad => by contradiction, .nil⟩
  step _ _ sound taken := sound.step taken

/-- In any order of the calls, a line is written only between `Initialize` and `Exit`, and there it is written
as the flag file was there at some time of the last five seconds. -/
theorem line_judged (reached : (system flag).Reachable run) {before after : List LogMoment} {call : LogCall}
    (split : run.history = before ++ .logged call :: after) : Judged flag before call :=
  (Sound.invariant.reachable reached).judged.split split call rfl

def flagged (t : UInt64) : Bool := 2000000000 ≤ t

def openedRun : LogRun := ⟨⟨true, false, 0⟩, 0, [.initialized, .logged ⟨0, true, false⟩]⟩

def earlyRun : LogRun :=
  ⟨⟨true, false, 0⟩, 3000000000, openedRun.history ++ [.logged ⟨3000000000, true, false⟩]⟩

def lateRun : LogRun :=
  ⟨⟨true, true, 6000000000⟩, 6000000000, earlyRun.history ++ [.logged ⟨6000000000, true, true⟩]⟩

theorem reached_late : (system flagged).Reachable lateRun := by
  have inits : FileUtils.create.init 0 0 0 [] 0 0 (flagged 0) (flagged 0) true [] =
      (0, ⟨true, false, 0⟩, none) := rfl
  have silent : openedRun.utils.logLine 3000000000 (flagged 3000000000) true [] [] =
      (⟨true, false, 0⟩, none) := rfl
  have writes : earlyRun.utils.logLine 6000000000 (flagged 6000000000) true [] [] =
      (⟨true, true, 6000000000⟩, some (bytes "\n")) := rfl
  have begins : start.now ≤ 0 := UInt64.le_refl _
  have sooner : openedRun.now ≤ 3000000000 := by decide
  have later : earlyRun.now ≤ 6000000000 := by decide
  have opens : Step flagged start openedRun := .initialized 0 0 begins (UInt64.le_refl _) inits
  have early : Step flagged openedRun earlyRun := .logged sooner silent
  have late : Step flagged earlyRun lateRun := .logged later writes
  exact ⟨start, rfl, .head opens (.head early (.single late))⟩

theorem line_judged_late : ∃ t, t ≤ (6000000000 : UInt64) ∧
    (6000000000 : UInt64).toNat < t.toNat + FILE_FLAG_CHECK_INTERVAL_NS.toNat ∧ true = flagged t := by
  have split : lateRun.history = earlyRun.history ++ .logged ⟨6000000000, true, true⟩ :: [] := rfl
  exact (line_judged reached_late split).flagged rfl rfl

end LogRun

end SysHelo
