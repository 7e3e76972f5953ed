import SysHelo.SharedBuffer

/-! Runs of the server, and the same runs without one of the sessions, which sends nothing that changes the
state. -/
namespace SysHelo
open CString Stdio Loop MinIni IpcServer

namespace IpcService

/-- A harmless message, or one that is not received, leaves the state as it is. -/
theorem served_harmless {targetVersion : List UInt8} {told : Told} {k : KernelAnswers} {h : Handle}
    {state state' : State} {events : List (IpcEvent Output)} {closed : Bool}
    (harmless : ∀ r, k.received = .ok r → Harmless r)
    (served : Served (told.handler targetVersion) k h state state' events closed) : state' = state := by
  have responds {r : IpcServerRequest} {content : Reply Output} {close : Bool} (safe : Harmless r)
      (responded : Returns (ipcServerRespond (told.handler targetVersion) r state) (state', content, close)) :
      state' = state := by
    unfold ipcServerRespond at responded
    by_cases request : r.hipc.type = CmifCommandType_Request
    · rw [if_pos request] at responded
      obtain ⟨⟨state₁, output⟩, handled, rest⟩ := ((told.handler targetVersion).stable _ _).bind_inv responded
      obtain ⟨rfl, -⟩ := Prod.mk.inj ((Returns.pure _).unique rest)
      obtain ⟨response, answer⟩ :=
        @serviceHandlerFunc_harmless targetVersion told.stack told.o r request safe state
      obtain ⟨⟨state₂, response'⟩, answered, rest⟩ :=
        (serviceHandlerFunc_stable targetVersion told.stack told.o r state).bind_inv handled
      rw [answer] at answered
      obtain ⟨rfl, -⟩ := Prod.mk.inj ((Returns.pure _).unique answered)
      exact (Prod.mk.inj ((Returns.pure _).unique rest)).1.symm
    · rw [if_neg request] at responded
      split at responded <;> exact (Prod.mk.inj ((Returns.pure _).unique responded)).1.symm
  cases served with
  | unreceived failed => rfl
  | kept request responded _ | ended request responded _ => exact responds (harmless _ request) responded

/-- One moment of a run: a call, with what it is told, what it does after its wait, and the words of the
replies that it sends; or anything that the rest of the sysmodule and other programs do to the state. -/
inductive Moment where
  | call (told : Told) (events : List (IpcEvent Output)) (words : List (List UInt8))
  | others (change : State → State)

/-- The message that a call receives, if it does, is whole. -/
def Moment.Whole : Moment → Prop
  | .call told _ _ => told.ReceivesWhole
  | .others _ => True

/-- The runs of the server in which the table is never full. -/
inductive Run (targetVersion : List UInt8) :
    IpcServer → State → Memory → List Moment → IpcServer → State → Memory → Prop where
  | nil {server : IpcServer} : Run targetVersion server state tls [] server state tls
  | call {server server₁ server' : IpcServer} (room : server.count < server.max)
      (returns : Returns (ipcServerProcess (told.handler targetVersion) (told.answers tls) server state)
        (server₁, state₁, rc, .wait server.table :: events))
      (rest : Run targetVersion server₁ state₁ (told.after tls events) moments server' state' tls') :
      Run targetVersion server state tls (.call told events (told.sends tls events) :: moments)
        server' state' tls'
  | others {server server' : IpcServer}
      (rest : Run targetVersion server (change state) tls moments server' state' tls') :
      Run targetVersion server state tls (.others change :: moments) server' state' tls'

/-- While the session at `place` is open, all that the server makes of its messages is harmless. -/
def Quiet : Memory → (place : Nat) → List Moment → Prop
  | _, _, [] => True
  | tls, place, .others _ :: moments => Quiet tls place moments
  | tls, place, .call told events _ :: moments =>
    if (told.answers tls).ReadyAt place then
      (∀ r, (told.answers tls).received = .ok r → Harmless r) ∧
        if (told.answers tls).closes then True else Quiet (told.after tls events) place moments
    else Quiet (told.after tls events) ((told.answers tls).moved place) moments

/-- The moments of the others, with the indices they have when nobody is at `place`. -/
def erase : Memory → (place : Nat) → List Moment → List Moment
  | _, _, [] => []
  | tls, place, .others change :: moments => .others change :: erase tls place moments
  | tls, place, .call told events words :: moments =>
    if (told.answers tls).ReadyAt place then
      if (told.answers tls).closes then moments else erase (told.after tls events) place moments
    else .call (told.without place) events words ::
      erase (told.after tls events) ((told.answers tls).moved place) moments

variable {targetVersion : List UInt8} {server server' other : IpcServer} {state state' : State}
  {tls tls₁ : Memory} {moments : List Moment}

theorem Run.sound (run : Run targetVersion server state tls moments server' state' tls₁)
    (sound : server.Sound) : server'.Sound := by
  induction run with
  | nil => exact sound
  | call room returns rest ih => exact ih (process_turn sound returns).2.1
  | others rest ih => exact ih sound

theorem Run.append {moments' : List Moment} {tls₂ : Memory}
    (first : Run targetVersion server state tls moments other state₁ tls₁)
    (second : Run targetVersion other state₁ tls₁ moments' server' state' tls₂) :
    Run targetVersion server state tls (moments ++ moments') server' state' tls₂ := by
  induction first with
  | nil => exact second
  | call room returns rest ih => exact .call room returns (ih second)
  | others rest ih => exact .others (ih second)

/-- A run whose messages are whole depends on the table only, not on the rest of the array and not on what is
in the buffer. -/
theorem Run.deliver (run : Run targetVersion server state tls moments server' state' tls₁)
    (sound : server.Sound) (sound' : other.Sound) (max : other.max = server.max)
    (table : other.table = server.table) (whole : ∀ moment ∈ moments, moment.Whole) (tls' : Memory) :
    ∃ other' tls₂, Run targetVersion other state tls' moments other' state' tls₂ := by
  induction run generalizing other tls' with
  | nil => exact ⟨other, tls', .nil⟩
  | others rest ih =>
    obtain ⟨other', tls₂, run⟩ := ih sound sound' max table
      (fun moment later => whole moment (.tail _ later)) tls'
    exact ⟨other', tls₂, .others run⟩
  | @call _ _ _ events _ _ _ tls told server _ _ room returns rest ih =>
    have complete : told.ReceivesWhole := whole _ (.head _)
    obtain ⟨turn, next, max₁, -⟩ := process_turn sound returns
    rw [sends_deliver complete turn tls']
    have turn' := turn_deliver complete turn tls'
    rw [← table, ← max] at turn'
    obtain ⟨other₁, rc, taken, table₁⟩ := turn_process sound' turn'
    obtain ⟨-, next', max₂, -⟩ := process_turn sound' taken
    obtain ⟨other', tls₂, run⟩ := ih next next' (max₂.trans (max.trans max₁.symm)) table₁
      (fun moment later => whole moment (.tail _ later)) (told.after tls' events)
    refine ⟨other', tls₂, .call ?_ taken run⟩
    rw [← sound'.length, table, sound.length, max]
    exact room

/-- The run without the session at `place`, while that is open. -/
theorem Run.erase (run : Run targetVersion server state tls moments server' state' tls₁)
    (sound : server.Sound) (sound' : other.Sound) (max : other.max = server.max) (positive : 0 < place)
    (inside : place < server.table.length) (table : other.table = server.table.eraseIdx place)
    (quiet : Quiet tls place moments)
    (whole : ∀ moment ∈ IpcService.erase tls place moments, moment.Whole) (tls' : Memory) :
    ∃ other' tls₂, Run targetVersion other state tls' (IpcService.erase tls place moments) other'
      state' tls₂ := by
  induction run generalizing other place tls' with
  | nil => exact ⟨other, tls', .nil⟩
  | others rest ih =>
    obtain ⟨other', tls₂, run⟩ := ih sound sound' max positive inside table quiet
      (fun moment later => whole moment (.tail _ later)) tls'
    exact ⟨other', tls₂, .others run⟩
  | @call _ _ _ events _ _ _ tls told server _ _ room returns rest ih =>
    obtain ⟨turn, next, max₁, -⟩ := process_turn sound returns
    unfold Quiet at quiet
    unfold IpcService.erase at whole ⊢
    by_cases ready : (told.answers tls).ReadyAt place
    · rw [if_pos ready] at quiet whole ⊢
      obtain ⟨harmless, quiet⟩ := quiet
      obtain ⟨table₁, h, served⟩ := turn_own ready positive inside turn
      obtain rfl := served_harmless harmless served
      by_cases closes : (told.answers tls).closes
      · rw [if_pos closes] at table₁ whole ⊢
        exact rest.deliver next sound' (max.trans max₁.symm) (table.trans table₁.symm) whole tls'
      · rw [if_neg closes] at table₁ quiet whole ⊢
        exact ih next sound' (max.trans max₁.symm) positive (table₁ ▸ inside)
          (table₁ ▸ table) quiet whole tls'
    · rw [if_neg ready] at quiet whole ⊢
      have complete : (told.without place).ReceivesWhole := whole _ (.head _)
      have length := sound.length
      obtain ⟨turn', positive', inside'⟩ := turn_without positive inside (length ▸ room) ready turn
      rw [← answers_without] at turn'
      have sent : told.sends tls events = (told.without place).sends tls' events :=
        @sends_deliver _ (told.without place) _ _ _ _ _ _ _ complete turn' tls'
      have turn' := @turn_deliver _ (told.without place) _ _ _ _ _ _ _ complete turn' tls'
      rw [← table, ← max] at turn'
      obtain ⟨other₁, rc, taken, table₁⟩ := turn_process sound' turn'
      obtain ⟨-, next', max₂, -⟩ := process_turn sound' taken
      obtain ⟨other', tls₂, run⟩ := ih next next' (max₂.trans (max.trans max₁.symm)) positive' inside' table₁
        quiet (fun moment later => whole moment (.tail _ later)) ((told.without place).after tls' events)
      rw [sent]
      refine ⟨other', tls₂, .call ?_ taken run⟩
      rw [← sound'.length, table, List.length_eraseIdx_of_lt inside, max]
      omega

/-- A call in which the handle at an index is ready: the port gives out `session`, a session has `sent`. -/
def ready (index : Int) (session : Handle) (sent : TlsMessage) : Told :=
  ⟨⟨0, index, 0, session, 0, ⟨⟨0, 0, []⟩, none⟩, 0⟩, sent, .replicate _ 0, .ok, fun _ => 0, fun _ => none⟩

/-- A message whose six data words are a header and a payload that starts with 1. -/
def wholeRequest (magic cmdId : UInt64) : TlsMessage where
  hipc := ⟨CmifCommandType_Request, 6, []⟩
  dataWords := 16
  tls := Memory.store (fun _ => 0) 16 (littleEndian 8 magic.toNat ++ littleEndian 8 cmdId.toNat ++ [1])

/-- The reply to a request that puts nothing out, and its words, which end with the payload of the request. -/
def acknowledgement : Reply Output := ipcServerPrepareResponse 0 (some (none, [])) 0

def acknowledged : List UInt8 :=
  List.replicate 8 0 ++ littleEndian 8 CMIF_OUT_HEADER_MAGIC.toNat ++ List.replicate 8 0 ++
    [1, 0, 0, 0, 0, 0, 0, 0]

/-- A server with its port, 7, and nothing else. -/
def listening : IpcServer := ⟨0, (Vector.replicate _ 0).setIfInBounds 0 7, 8, 1⟩

theorem listening_initialised : ipcServerInit ⟨0, .replicate _ 0, 0, 0⟩ 0 7 0 7 =
    (listening, 0, [(.register 7 : IpcEvent Output)]) := rfl

theorem wholeRequest_whole {magic cmdId : UInt64}
    (small : ∀ r, (wholeRequest magic cmdId).parseRequest = .ok r → commandSize r.cmdId = 0) :
    Whole (wholeRequest magic cmdId) fun _ => none := by
  have request : (wholeRequest magic cmdId).hipc.type = CmifCommandType_Request := rfl
  have ends : (wholeRequest magic cmdId).dataEnd = 40 := rfl
  have aligned : cmifGetAlignedDataStart 16 = 16 := rfl
  have place : (wholeRequest magic cmdId).header = 16 := aligned
  refine ⟨fun _ _ => by rw [place, ends]; decide, fun r p parsed pointed _ => ?_,
    fun r parsed i _ below _ => .inl ?_⟩
  · obtain ⟨-, size, ptr⟩ := parseRequest_ok request parsed
    have words : (wholeRequest magic cmdId).hipc.numDataWords.toNat * 4 % 2 ^ 32 = 24 := rfl
    have room := argumentSize_le r
    rw [if_pos (by omega), pointed, place] at ptr
    obtain rfl := Option.some.inj ptr
    rw [ends, RAW_HEADER_SIZE]
    omega
  · rw [replyEnd, outputSize, if_pos request, small r parsed] at below
    rw [ends]
    exact below

theorem wholeRequest_rejected (tls : Memory) :
    ((ready 1 0 (wholeRequest 0 SysHeloIpcCmd_Exit)).answers tls).received = .error LibnxError_BadInput := by
  have fails : (wholeRequest 0 SysHeloIpcCmd_Exit).parseRequest = .error LibnxError_BadInput := rfl
  have same : ((ready 1 0 (wholeRequest 0 SysHeloIpcCmd_Exit)).message tls).parseRequest = _ :=
    deliver_parseRequest (wholeRequest_whole fun r other => absurd (fails.symm.trans other) (by simp)) tls
  rw [answers_received, same, fails]
  rfl

/-- Erasing a harmless session, from its acceptance on, gives a run in which everything else that the server
does is the same, to the last byte of a reply, and that ends in the same state, when the messages of the
others are whole. -/
theorem session_isolated {before : IpcServer} {name : SmServiceName} {port session : Handle}
    {registered : List (IpcEvent Output)} {told : Told} {words : List (List UInt8)} {later : List Moment}
    (initialised : ipcServerInit before name maxSessions registerResult port = (server, 0, registered))
    (earlier : Run targetVersion server state tls moments other state₁ tls₁)
    (rest : Run targetVersion other state₁ tls₁ (.call told [.accept port (some session)] words :: later)
      server' state' tls₂)
    (quiet : Quiet tls₁ other.count later)
    (whole : ∀ moment ∈ erase tls₁ other.count later, moment.Whole) :
    ∃ server'' tls₃, Run targetVersion server state tls (moments ++ erase tls₁ other.count later)
      server'' state' tls₃ := by
  have sound := (init_table initialised).1
  have sound₁ := earlier.sound sound
  cases rest with
  | call room returns after =>
    obtain ⟨turn, next, max, -⟩ := process_turn sound₁ returns
    obtain ⟨table₁, rfl⟩ := turn_accept turn
    have length := sound₁.length
    obtain ⟨server'', tls₃, run⟩ := after.erase next sound₁ max.symm sound₁.registered
      (by rw [table₁, List.length_append, List.length_singleton]; omega)
      (by rw [table₁, List.eraseIdx_append_of_length_le (by omega), length]; simp) quiet whole tls₁
    exact ⟨server'', tls₃, earlier.append run⟩

/-- Session 8 sends a message without the magic number while session 9 is served. -/
theorem session_isolated_between : ∃ server'' tls₃, Run [] listening ⟨.create, fun _ => none⟩ (fun _ => 0)
    [.call ((ready 0 9 (wholeRequest CMIF_IN_HEADER_MAGIC SysHeloIpcCmd_Exit)).without 1)
        [.accept 7 (some 9)] [],
      .call ((ready 2 0 (wholeRequest CMIF_IN_HEADER_MAGIC SysHeloIpcCmd_SetEnabled)).without 1)
        [.receive 9, .reply 9 acknowledgement] [acknowledged],
      .call (ready 1 0 (wholeRequest CMIF_IN_HEADER_MAGIC SysHeloIpcCmd_Exit))
        [.receive 9, .reply 9 acknowledgement] [acknowledged]]
    server'' ⟨exit (setEnabled 1 .create), fun _ => none⟩ tls₃ := by
  have rest : Run [] listening ⟨.create, fun _ => none⟩ (fun _ => 0)
      [.call (ready 0 8 (wholeRequest CMIF_IN_HEADER_MAGIC SysHeloIpcCmd_Exit)) [.accept 7 (some 8)] [],
        .call (ready 0 9 (wholeRequest CMIF_IN_HEADER_MAGIC SysHeloIpcCmd_Exit)) [.accept 7 (some 9)] [],
        .call (ready 2 0 (wholeRequest CMIF_IN_HEADER_MAGIC SysHeloIpcCmd_SetEnabled))
          [.receive 9, .reply 9 acknowledgement] [acknowledged],
        .call (ready 1 0 (wholeRequest 0 SysHeloIpcCmd_Exit)) [.receive 8, .close 8] [],
        .call (ready 1 0 (wholeRequest CMIF_IN_HEADER_MAGIC SysHeloIpcCmd_Exit))
          [.receive 9, .reply 9 acknowledgement] [acknowledged]]
      _ ⟨exit (setEnabled 1 .create), fun _ => none⟩ _ :=
    .call (by decide) (.pure _) (.call (by decide) (.pure _) (.call (by decide) (.pure _)
      (.call (by decide) (.pure _) (.call (by decide) (.pure _) .nil))))
  have exits : (wholeRequest CMIF_IN_HEADER_MAGIC SysHeloIpcCmd_Exit).parseRequest =
      .ok ⟨SysHeloIpcCmd_Exit, some 32, 8⟩ := rfl
  have enables : (wholeRequest CMIF_IN_HEADER_MAGIC SysHeloIpcCmd_SetEnabled).parseRequest =
      .ok ⟨SysHeloIpcCmd_SetEnabled, some 32, 8⟩ := rfl
  have whole {magic cmdId : UInt64} (parsed : (wholeRequest magic cmdId).parseRequest = .ok
      ⟨cmdId, some 32, 8⟩)
      (small : commandSize cmdId = 0) : Whole (wholeRequest magic cmdId) fun _ => none :=
    wholeRequest_whole fun r other => by
      obtain rfl := Except.ok.inj (parsed.symm.trans other)
      exact small
  refine session_isolated listening_initialised .nil rest
    ⟨fun r request => absurd ((wholeRequest_rejected _).symm.trans request) (by simp), trivial⟩ ?_
  exact List.forall_mem_cons.mpr ⟨fun _ _ _ => whole exits rfl,
    List.forall_mem_cons.mpr ⟨fun _ _ _ => whole enables rfl,
      List.forall_mem_cons.mpr ⟨fun _ _ _ => whole exits rfl, List.forall_mem_nil _⟩⟩⟩

/-- Session 8 sends a message without the magic number, and session 9 a command to enable whose payload is
behind its words: what it does depends on session 8. -/
theorem session_disturbs :
    let start : State := ⟨.create, fun _ => none⟩
    let later : List Moment := [.call (ready 0 9 (enableRequest 8)) [.accept 7 (some 9)] [],
      .call (ready 1 0 (wholeRequest 0 SysHeloIpcCmd_Exit)) [.receive 8, .close 8] [],
      .call (ready 1 0 (enableRequest 8)) [.receive 9, .reply 9 acknowledgement] [acknowledged]]
    (∃ server' tls', Run [] listening start (fun _ => 0)
      (.call (ready 0 8 (enableRequest 8)) [.accept 7 (some 8)] [] :: later)
      server' ⟨setEnabled 1 .create, fun _ => none⟩ tls') ∧ Quiet (fun _ => 0) 1 later ∧
    (∀ server'' tls'', ¬ Run [] listening start (fun _ => 0) (erase (fun _ => 0) 1 later)
      server'' ⟨setEnabled 1 .create, fun _ => none⟩ tls'') ∧
    ∀ events words server'' state'' tls'', Run [] listening start (fun _ => 0)
      [.call ((ready 0 9 (enableRequest 8)).without 1) [.accept 7 (some 9)] [],
        .call (ready 1 0 (enableRequest 8)) events words] server'' state'' tls'' →
      state''.mgr.config.enabled = false := by
  intro start later
  have alone (events words server'' state'' tls'') (run : Run [] listening start (fun _ => 0)
      [.call ((ready 0 9 (enableRequest 8)).without 1) [.accept 7 (some 9)] [],
        .call (ready 1 0 (enableRequest 8)) events words] server'' state'' tls'') :
      state''.mgr.config.enabled = false := by
    cases run with
    | call _ returns rest =>
      obtain ⟨rfl, rfl, -⟩ := (Returns.pure _).unique returns
      cases rest with
      | call _ returns rest =>
        obtain ⟨-, rfl, -⟩ := (Returns.pure _).unique returns
        cases rest
        rfl
  refine ⟨⟨_, _, .call (by decide) (.pure _) (.call (by decide) (.pure _) (.call (by decide) (.pure _)
    (.call (by decide) (.pure _) .nil)))⟩, ?_, fun server'' tls'' run => ?_, alone⟩
  · exact ⟨fun r request => absurd ((wholeRequest_rejected _).symm.trans request) (by simp), trivial⟩
  · exact absurd (alone _ _ _ _ _ run) (by decide)

end IpcService

end SysHelo
