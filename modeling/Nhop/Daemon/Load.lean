import Nhop.Foundation.Runs
import Nhop.Daemon.Serving

/-!
The state task as a system, and what one of its steps can do while a run is in
flight and while none is.

A command that carries the id of the run in flight goes to the run and touches
nothing else; any other command is either refused or reads. With no run in
flight a command that carries an id is refused as well.
-/

namespace Nhop.Daemon

open Foundation Ipc Rules Proxy Upstream Cli

/-- What a command does to the run it belongs to. -/
def Staging.take [External] (staging : Staging) (command : Command) : Response × Staging :=
  match command with
  | .addRule ruleClass kind value _ => replied invalid (staging.pushRule ruleClass kind value)
  | .clearRules _ => (.ok, staging.clearRules)
  | .setUpstream addr _ => replied unreadable (staging.setUpstream addr [])
  | .setUpstreams addr fallbacks _ => replied unreadable (staging.setUpstream addr fallbacks)
  | .setListen http socks _ => (.ok, staging.setListen ⟨http, socks⟩)
  | .addForward listen host port _ =>
      replied duplicate (staging.pushForward ⟨listen, ⟨host, port⟩⟩)
  | .reload _ | .on | .off | .status | .rules | .test _ _ | .doctor | .subscribe => (.ok, staging)

namespace DaemonState

/-- One thing the state task takes: a request, or the end of a script. -/
inductive Event
  | request (moment : Moment) (command : Command) (reply : ℕ)
  | finished (moment : Moment) (outcome : ScriptOutcome)

/-- The state task as a system: it takes anything at any time. -/
def task [External] (os : Os) : System DaemonState Event where
  step state
    | .request moment command reply => some (state.handle os moment command reply).2
    | .finished moment outcome => some (state.finish os moment outcome).2

/-- A state task that has just started, over front ends it bound or over none. -/
def Started (os : Os) (state : DaemonState) : Prop :=
  ∃ initFile listen loadTimeout hold now,
    state = new initFile .unbound listen loadTimeout hold 0 now ∨
      spawn os initFile listen hold now = .ok state

/-- No run is in flight yet. -/
theorem load_of_started {os : Os} {state : DaemonState} (h : Started os state) :
    state.load = none := by
  obtain ⟨initFile, listen, loadTimeout, hold, now, rfl | h⟩ := h
  · rfl
  · unfold spawn at h
    split at h
    · cases h
    · cases h
      rfl

/-- And none has been. -/
theorem loadIds_of_started {os : Os} {state : DaemonState} (h : Started os state) :
    state.loadIds = ⟨0⟩ := by
  obtain ⟨initFile, listen, loadTimeout, hold, now, rfl | h⟩ := h
  · rfl
  · unfold spawn at h
    split at h
    · cases h
    · cases h
      rfl

/-! ### Where a command applies -/

section target

variable {state : DaemonState} {load : InFlight} {carried : Option LoadId}

theorem target_staged (hload : state.load = some load) :
    state.target (some load.id) = .staged := by
  simp only [target, inFlight, hload, Option.map_some, if_true]

theorem target_elsewhere (hload : state.load = some load) (hcarried : carried ≠ some load.id) :
    ∃ message, state.target carried = refused message := by
  cases carried with
  | none => exact ⟨_, by simp only [target, inFlight, hload, Option.map_some]; rfl⟩
  | some id =>
      have hne : id ≠ load.id := fun hid => hcarried (by rw [hid])
      exact ⟨_, by simp only [target, inFlight, hload, Option.map_some, hne, if_false]; rfl⟩

theorem target_stale (hidle : state.load = none) (id : LoadId) :
    ∃ message, state.target (some id) = refused message :=
  ⟨_, by simp only [target, inFlight, hidle, Option.map_none]; rfl⟩

theorem target_live (hidle : state.load = none) : state.target none = .live := by
  simp only [target, inFlight, hidle, Option.map_none]

theorem target_idle (hidle : state.load = none) (carried : Option LoadId) :
    state.target carried = .live ∨ ∃ message, state.target carried = refused message := by
  cases carried with
  | none => exact Or.inl (target_live hidle)
  | some id => exact Or.inr (target_stale hidle id)

theorem staged_eq (hload : state.load = some load) (apply : Staging → Response × Staging) :
    state.staged apply =
      ((apply load.staged).1,
        { state with load := some { load with staged := (apply load.staged).2 } }) := by
  simp only [staged, hload]

end target

/-! ### What a request can leave behind -/

section live

variable {os : Os} {moment : Moment} {state : DaemonState} {carried : Option LoadId}

/-- The state a run starts in: it has built nothing, and nothing that serves is
touched. -/
def begun (state : DaemonState) (path : String) (reply : ℕ) : DaemonState :=
  { state with
    loadIds := state.loadIds.issue.2
    initPath := some path
    load := some ⟨state.loadIds.issue.1, .empty, reply⟩ }

theorem reload_idle (hidle : state.load = none) (moment : Moment) (reply : ℕ)
    (path : Option String) :
    (∃ response, state.reload moment path reply = (some response, state)) ∨
      ∃ script, state.reload moment path reply = (none, state.begun script reply) := by
  unfold reload begun
  simp only [inFlight, hidle, Option.map_none]
  split_ifs
  · exact Or.inr ⟨_, rfl⟩
  · exact Or.inl ⟨_, rfl⟩

/-- What a request that is answered at once can leave behind. -/
def Answered (os : Os) (now : ℤ) (state after : DaemonState) : Prop :=
  after = state ∨ (∃ rules, after = { state with rules := rules }) ∨
    (∃ upstreams, after = state.adoptUpstream now (some upstreams)) ∨
    (∃ listen, after = (state.rebind os listen).2) ∨
    ∃ forwards, after = (state.rebindForwards os forwards).2

/-- No request but the one that starts a run touches the runs. -/
theorem Answered.frame {now : ℤ} {after : DaemonState} (h : Answered os now state after) :
    after.load = state.load ∧ after.loadIds = state.loadIds := by
  rcases h with rfl | ⟨rules, rfl⟩ | ⟨upstreams, rfl⟩ | ⟨listen, rfl⟩ | ⟨forwards, rfl⟩
  · exact ⟨rfl, rfl⟩
  · exact ⟨rfl, rfl⟩
  · exact ⟨rfl, rfl⟩
  · exact rebind_frame
  · exact rebindForwards_frame

variable (hidle : state.load = none)
include hidle

theorem clearRules_answered : Answered os moment.now state (state.clearRules carried).2 := by
  rcases target_idle hidle carried with h | ⟨message, h⟩ <;>
    simp only [clearRules, h, refused]
  · exact Or.inr (Or.inl ⟨_, rfl⟩)
  · exact Or.inl rfl

theorem setListen_answered {listen : Listen} :
    Answered os moment.now state (state.setListen os listen carried).2 := by
  rcases target_idle hidle carried with h | ⟨message, h⟩ <;>
    simp only [setListen, h, refused]
  · refine Or.inr (Or.inr (Or.inr (Or.inl ⟨listen, ?_⟩)))
    rcases state.rebind os listen with ⟨_ | _, _⟩ <;> rfl
  · exact Or.inl rfl

theorem addForward_answered {forward : Forward} :
    Answered os moment.now state (state.addForward os forward carried).2 := by
  rcases target_idle hidle carried with h | ⟨message, h⟩ <;>
    simp only [addForward, h, refused]
  · cases state.forwards.push forward with
    | error failure => exact Or.inl rfl
    | ok forwards =>
        refine Or.inr (Or.inr (Or.inr (Or.inr ⟨forwards, ?_⟩)))
        simp only
        rcases state.rebindForwards os forwards with ⟨_ | _, _⟩ <;> rfl
  · exact Or.inl rfl

theorem turnOff_answered : Answered os moment.now state state.turnOff.2 := by
  have hnone : state.inFlight = none := by rw [inFlight, hidle, Option.map_none]
  simp only [turnOff, hnone]
  exact Or.inr (Or.inl ⟨_, rfl⟩)

variable [External]

theorem addRule_answered {ruleClass : RuleClass} {kind : RuleKind} {value : RuleValue} :
    Answered os moment.now state (state.addRule ruleClass kind value carried).2 := by
  rcases target_idle hidle carried with h | ⟨message, h⟩ <;>
    simp only [addRule, h, refused]
  · cases state.rules.push ruleClass kind value with
    | ok pushed => exact Or.inr (Or.inl ⟨pushed.2, rfl⟩)
    | error failure => exact Or.inl rfl
  · exact Or.inl rfl

theorem setUpstream_answered {addr : UpstreamAddr} {fallbacks : List UpstreamAddr} :
    Answered os moment.now state (state.setUpstream moment addr fallbacks carried).2 := by
  rcases target_idle hidle carried with h | ⟨message, h⟩ <;>
    simp only [DaemonState.setUpstream, h, refused]
  · cases Upstreams.parse addr fallbacks with
    | ok upstreams => exact Or.inr (Or.inr (Or.inl ⟨upstreams, rfl⟩))
    | error failure => exact Or.inl rfl
  · exact Or.inl rfl

end live

section commands

variable [External] {os : Os} {moment : Moment} {state : DaemonState} {command : Command}
variable {reply : ℕ} {load : InFlight} {id : LoadId}

/-- A command that is turned away leaves the state as it is. -/
theorem handle_refused {carried : Option LoadId} {message : String}
    (hcarried : command.load? = some carried) (h : state.target carried = refused message) :
    state.handle os moment command reply = (some (inProgress message), state) := by
  rw [refused] at h
  cases command <;> simp only [Command.load?, Option.some.injEq, reduceCtorEq] at hcarried <;>
    subst hcarried
  case addRule => simp only [handle, answered, addRule, h]
  case clearRules => simp only [handle, answered, clearRules, h]
  case setUpstream => simp only [handle, answered, DaemonState.setUpstream, h]
  case setUpstreams => simp only [handle, answered, DaemonState.setUpstream, h]
  case setListen => simp only [handle, answered, setListen, h]
  case addForward => simp only [handle, answered, addForward, h]

/-! ### While a run is in flight -/

/-- A command of the run in flight goes to what the run has built. -/
theorem handle_staged (hload : state.load = some load)
    (hid : command.load? = some (some load.id)) :
    state.handle os moment command reply =
      (some (load.staged.take command).1,
        { state with load := some { load with staged := (load.staged.take command).2 } }) := by
  have htarget := target_staged hload
  cases command <;> simp only [Command.load?, Option.some.injEq, reduceCtorEq] at hid <;>
    subst hid
  case addRule =>
      rw [handle, answered, addRule, htarget]
      simp only [staged_eq hload]
      rfl
  case clearRules =>
      rw [handle, answered, clearRules, htarget]
      simp only [staged_eq hload]
      rfl
  case setUpstream =>
      rw [handle, answered, DaemonState.setUpstream, htarget]
      simp only [staged_eq hload]
      rfl
  case setUpstreams =>
      rw [handle, answered, DaemonState.setUpstream, htarget]
      simp only [staged_eq hload]
      rfl
  case setListen =>
      rw [handle, answered, setListen, htarget]
      simp only [staged_eq hload]
      rfl
  case addForward =>
      rw [handle, answered, addForward, htarget]
      simp only [staged_eq hload]
      rfl

/-- Any other command leaves the state as it is, and is refused when it would
change it. -/
theorem handle_elsewhere (os : Os) (moment : Moment) (reply : ℕ) (hload : state.load = some load)
    (hid : command.load? ≠ some (some load.id)) :
    ∃ response, state.handle os moment command reply = (some response, state) ∧
      (command.load? ≠ none → response.isErr = true) := by
  cases hcarried : command.load? with
  | some carried =>
      rw [hcarried] at hid
      have hne : carried ≠ some load.id := fun h => hid (congrArg some h)
      obtain ⟨message, hmessage⟩ := target_elsewhere hload hne
      exact ⟨_, handle_refused hcarried hmessage, fun _ => rfl⟩
  | none =>
      have hsame : ∃ response, state.handle os moment command reply = (some response, state) := by
        cases command <;> simp only [Command.load?, reduceCtorEq] at hcarried
        case reload path => simp [handle, reload, inFlight, hload]
        case on => simp [handle, reload, inFlight, hload]
        case off => simp [handle, answered, turnOff, inFlight, hload]
        all_goals exact ⟨_, rfl⟩
      obtain ⟨response, hsame⟩ := hsame
      exact ⟨response, hsame, fun h => absurd rfl h⟩

/-- Whatever is asked of the state task while a run is in flight reaches only what
that run has built. -/
theorem handle_inFlight (os : Os) (moment : Moment) (command : Command) (reply : ℕ)
    (hload : state.load = some load) :
    ∃ staged, (state.handle os moment command reply).2 =
      { state with load := some { load with staged := staged } } := by
  by_cases hid : command.load? = some (some load.id)
  · exact ⟨_, by rw [handle_staged hload hid]⟩
  · obtain ⟨response, hsame, _⟩ := handle_elsewhere os moment reply hload hid
    refine ⟨load.staged, ?_⟩
    rw [hsame, ← hload]

/-! ### While none is -/

/-- With no run in flight, a command that carries an id is refused. -/
theorem handle_stale (os : Os) (moment : Moment) (reply : ℕ) (hidle : state.load = none)
    (hid : command.load? = some (some id)) :
    ∃ response, state.handle os moment command reply = (some response, state) ∧
      response.isErr = true := by
  obtain ⟨message, hmessage⟩ := target_stale hidle id
  exact ⟨_, handle_refused hid hmessage, rfl⟩

/-- **What a request can do while no run is in flight.** -/
theorem handle_idle (os : Os) (moment : Moment) (command : Command) (reply : ℕ)
    (hidle : state.load = none) :
    (∃ response after, state.handle os moment command reply = (some response, after) ∧
      Answered os moment.now state after) ∨
    ∃ script, state.handle os moment command reply = (none, state.begun script reply) := by
  have hreload : ∀ path, (∃ response after, state.reload moment path reply =
      (some response, after) ∧ Answered os moment.now state after) ∨
      ∃ script, state.reload moment path reply = (none, state.begun script reply) := by
    intro path
    rcases reload_idle hidle moment reply path with ⟨response, h⟩ | h
    · exact Or.inl ⟨response, state, h, Or.inl rfl⟩
    · exact Or.inr h
  cases command
  case reload path => exact hreload path
  case on => exact hreload none
  case addRule => exact Or.inl ⟨_, _, rfl, addRule_answered hidle⟩
  case clearRules => exact Or.inl ⟨_, _, rfl, clearRules_answered hidle⟩
  case setUpstream => exact Or.inl ⟨_, _, rfl, setUpstream_answered hidle⟩
  case setUpstreams => exact Or.inl ⟨_, _, rfl, setUpstream_answered hidle⟩
  case setListen => exact Or.inl ⟨_, _, rfl, setListen_answered hidle⟩
  case addForward => exact Or.inl ⟨_, _, rfl, addForward_answered hidle⟩
  case off => exact Or.inl ⟨_, _, rfl, turnOff_answered hidle⟩
  all_goals exact Or.inl ⟨_, _, rfl, Or.inl rfl⟩

/-- A request that is not answered starts a run. -/
theorem handle_starts {after : DaemonState}
    (h : state.handle os moment command reply = (none, after)) :
    state.load = none ∧ ∃ script, after = state.begun script reply := by
  cases hload : state.load with
  | some load =>
      by_cases hid : command.load? = some (some load.id)
      · rw [handle_staged hload hid] at h
        cases h
      · obtain ⟨response, hresponse, _⟩ := handle_elsewhere os moment reply hload hid
        rw [hresponse] at h
        cases h
  | none =>
      rcases handle_idle os moment command reply hload with
        ⟨response, after', hanswered, _⟩ | ⟨script, hscript⟩
      · rw [hanswered] at h
        cases h
      · rw [hscript] at h
        obtain ⟨-, rfl⟩ := Prod.mk.inj h
        exact ⟨rfl, script, rfl⟩

end commands

/-! ### The answer nobody gets -/

section vanished

variable {os : Os} {moment : Moment} {state : DaemonState} {carried : Option LoadId}

/-- A command reaches what a run has built only while the run is in flight. -/
theorem target_cases (state : DaemonState) (carried : Option LoadId) :
    (∃ message, state.target carried = refused message) ∨ state.target carried = .live ∨
      ∃ load, state.load = some load ∧ state.target carried = .staged := by
  cases hload : state.load with
  | none =>
      rcases target_idle hload carried with h | h
      · exact Or.inr (Or.inl h)
      · exact Or.inl h
  | some load =>
      by_cases hcarried : carried = some load.id
      · exact Or.inr (Or.inr ⟨load, rfl, by rw [hcarried, target_staged hload]⟩)
      · exact Or.inl (target_elsewhere hload hcarried)

theorem inProgress_ne (message : String) : inProgress message ≠ vanished := by
  simp [inProgress, vanished]

theorem ok_ne : Response.ok ≠ vanished := by simp [vanished]

theorem unbindable_ne (failure : OsError) : unbindable failure ≠ vanished := by
  intro h
  simp only [unbindable, vanished, Response.err.injEq, true_and] at h
  have hhead := congrArg (fun text => text.toList.head?) h
  simp at hhead

theorem unopenable_ne (failure : OsError) : unopenable failure ≠ vanished := by
  intro h
  simp only [unopenable, vanished, Response.err.injEq, true_and] at h
  have hhead := congrArg (fun text => text.toList.head?) h
  simp at hhead

theorem replied_ne {ε : Type} {failed : ε → Response} (h : ∀ failure, failed failure ≠ vanished)
    (result : Except ε Unit × Staging) : (replied failed result).1 ≠ vanished := by
  obtain ⟨result, staged⟩ := result
  cases result with
  | ok _ => exact ok_ne
  | error failure => exact h failure

/-- Of a command that may be staged, refused or applied at once, only the answers
it gets where it applies matter. -/
theorem applied_ne {live : Response × DaemonState} {apply : Staging → Response × Staging}
    (hlive : live.1 ≠ vanished) (happly : ∀ staged, (apply staged).1 ≠ vanished) :
    (match state.target carried with
      | .refused refusal => (refusal, state)
      | .staged => state.staged apply
      | .live => live).1 ≠ vanished := by
  rcases target_cases state carried with ⟨message, h⟩ | h | ⟨load, hload, h⟩ <;> rw [h]
  · exact inProgress_ne message
  · exact hlive
  · simp only [staged_eq hload]
    exact happly load.staged

theorem reload_ne (path : Option String) (reply : ℕ) :
    (state.reload moment path reply).1 ≠ some vanished := by
  unfold reload
  cases state.inFlight with
  | some id => simp [inProgress, vanished]
  | none =>
      simp only
      split_ifs <;> simp [vanished]

theorem turnOff_ne : state.turnOff.1 ≠ vanished := by
  unfold turnOff
  cases state.inFlight with
  | none => exact ok_ne
  | some id => exact inProgress_ne _

theorem clearRules_ne : (state.clearRules carried).1 ≠ vanished :=
  applied_ne ok_ne fun _ => ok_ne

theorem setListen_ne {listen : Listen} : (state.setListen os listen carried).1 ≠ vanished := by
  refine applied_ne ?_ fun _ => ok_ne
  rcases state.rebind os listen with ⟨failure | _, _⟩
  · exact unbindable_ne failure
  · exact ok_ne

theorem duplicate_ne (failure : DuplicateForward) : duplicate failure ≠ vanished := by
  simp [duplicate, vanished]

theorem addForward_ne {forward : Forward} :
    (state.addForward os forward carried).1 ≠ vanished := by
  refine applied_ne ?_ fun _ => replied_ne duplicate_ne _
  cases state.forwards.push forward with
  | error failure => exact duplicate_ne failure
  | ok forwards =>
      simp only
      rcases state.rebindForwards os forwards with ⟨failure | _, _⟩
      · exact unopenable_ne failure
      · exact ok_ne

theorem invalid_ne (failure : InvalidRule) : invalid failure ≠ vanished := by
  simp [invalid, InvalidRule.errKind, vanished]

variable [External]

theorem unreadable_ne (failure : UnusableUpstreams) : unreadable failure ≠ vanished := by
  simp [unreadable, vanished]

theorem addRule_ne {ruleClass : RuleClass} {kind : RuleKind} {value : RuleValue} :
    (state.addRule ruleClass kind value carried).1 ≠ vanished := by
  refine applied_ne ?_ fun _ => replied_ne invalid_ne _
  cases state.rules.push ruleClass kind value with
  | ok pushed => exact ok_ne
  | error failure => exact invalid_ne failure

theorem setUpstream_ne {addr : UpstreamAddr} {fallbacks : List UpstreamAddr} :
    (state.setUpstream moment addr fallbacks carried).1 ≠ vanished := by
  refine applied_ne ?_ fun _ => replied_ne unreadable_ne _
  cases Upstreams.parse addr fallbacks with
  | ok upstreams => exact ok_ne
  | error failure => exact unreadable_ne failure

/-- **No command is told that its run ended while it was in flight.** -/
theorem handle_ne_vanished (os : Os) (moment : Moment) (state : DaemonState) (command : Command)
    (reply : ℕ) : (state.handle os moment command reply).1 ≠ some vanished := by
  have hanswered : ∀ result : Response × DaemonState, result.1 ≠ vanished →
      (answered result).1 ≠ some vanished := by
    intro result hne heq
    exact hne (Option.some.inj heq)
  cases command with
  | status => simp [handle, report, vanished]
  | rules => simp [handle, vanished]
  | test host port => simp [handle, vanished]
  | doctor => simp [handle, vanished]
  | subscribe =>
      have hne : streamed ≠ vanished := by decide
      simpa [handle] using hne
  | reload path => exact reload_ne path reply
  | on => exact reload_ne none reply
  | off => exact hanswered _ turnOff_ne
  | addRule => exact hanswered _ addRule_ne
  | clearRules => exact hanswered _ clearRules_ne
  | setUpstream => exact hanswered _ setUpstream_ne
  | setUpstreams => exact hanswered _ setUpstream_ne
  | setListen => exact hanswered _ setListen_ne
  | addForward => exact hanswered _ addForward_ne

end vanished

/-! ### A daemon to run the model on -/

/-- Binds every address asked for. -/
def willing : Os := ⟨fun _ addr => .ok addr⟩

/-- Binds every address but in one attempt. -/
def refusedAt (call : ℕ) : Os :=
  ⟨fun n addr => if n = call then .error ⟨"address in use"⟩ else .ok addr⟩

def anyMoment : Moment := ⟨0, fun _ => true⟩

/-- The daemon `spawn` starts when its first two attempts succeed. -/
def fresh : DaemonState :=
  new "init" (.bound ⟨⟨defaultListen.http, 0⟩, ⟨defaultListen.socks, 1⟩, []⟩) defaultListen
    defaultLoadTimeout 0 2 0

theorem started_fresh {os : Os} (hhttp : os.bind 0 defaultListen.http = .ok defaultListen.http)
    (hsocks : os.bind 1 defaultListen.socks = .ok defaultListen.socks) : Started os fresh := by
  refine ⟨"init", defaultListen, 0, 0, 0, Or.inr ?_⟩
  simp only [spawn, Frontends.bind, bindTcp, hhttp, hsocks]
  rfl

end DaemonState

end Nhop.Daemon
