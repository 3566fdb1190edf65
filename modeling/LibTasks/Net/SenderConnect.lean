import LibTasks.Net.HttpBase
import LibTasks.Net.HttpSender

/-!
# Connecting a sender

`socket::connect` of `tasks/net/socket.cpp` with its system calls, and the calls of
`http_sender::send` on one sender that use it, one after the other.  The file descriptor of
the socket doubles as the flag that says whether the sender is connected; `connect` assigns
it before its last calls, each of which may fail.
-/

namespace LibTasks.Net.SenderConnect

open LibTasks.Foundation LibTasks.Tools
open LibTasks.Net.HttpSender (Ev)

/-! ## `socket::connect` -/

/-- The results of the system calls of one `connect`. -/
structure SystemCalls where
  /-- `gethostbyname` has found the host. -/
  gethostbyname : Bool := true
  /-- The descriptor from `::socket`, and `none` for -1. -/
  socket : Option Nat
  setsockopt : Bool := true
  connect : Bool := true
  fcntl : Bool := true
  /-- `errno` after a call that has failed, and its `strerror`. -/
  errno : Int := 0
  reason : String := ""

/-- The overloads of `connect`. -/
inductive Target where
  | tcp (host : Bytes) (port : Int)
  | unix (path : Bytes)
  deriving DecidableEq

/-- The remote that a sender keeps. -/
def Target.remote : Target → Bytes
  | .tcp host _ => host
  | .unix path => path

/-- The exception for a system call that has failed. -/
def systemError (calls : SystemCalls) (error : TasksError) (what : String) : Failure :=
  .exception { error, what := what ++ calls.reason, sysErrno := calls.errno }

/-- What the overloads have in common, with `m_fd` after it.  `SO_NOSIGPIPE` is set on
systems other than Linux. -/
def connectFd (linux blocking : Bool) (calls : SystemCalls) :
    Except Failure Unit × Option Nat :=
  match calls.socket with
  | none => (.error (systemError calls .socketSocket "socket failed: "), none)
  | some fd =>
      if !linux && !calls.setsockopt then
        (.error (systemError calls .socketSockoptNosigpipe "setsockopt SO_NOSIGPIPE failed: "),
          some fd)
      else if !calls.connect then
        (.error (systemError calls .socketConnect "connect failed: "), some fd)
      else if !blocking && !calls.fcntl then
        (.error (systemError calls .socketFnctl "fcntl failed: "), some fd)
      else
        (.ok (), some fd)

/-- `connect`, with `m_fd` before and after it. -/
def connect (linux blocking : Bool) (fd : Option Nat) (target : Target) (calls : SystemCalls) :
    Except Failure Unit × Option Nat :=
  match target with
  | .unix _ => connectFd linux blocking calls
  | .tcp host _ =>
      if calls.gethostbyname then
        connectFd linux blocking calls
      else
        (.error (.exception
          { error := .socketNohost, what := "Host " ++ display host ++ " not found" }), fd)

/-- A call that comes after `::socket` fails. -/
def Late (linux blocking : Bool) (target : Target) (calls : SystemCalls) : Prop :=
  (∀ host port, target = .tcp host port → calls.gethostbyname = true) ∧
    calls.socket ≠ none ∧
    ((linux = false ∧ calls.setsockopt = false) ∨ calls.connect = false ∨
      (blocking = false ∧ calls.fcntl = false))

section Connect

variable {linux blocking : Bool} {fd : Option Nat} {target : Target} {calls : SystemCalls}

/-- A call that fails late leaves the new descriptor. -/
theorem connectFd_late {new : Nat} (socket : calls.socket = some new)
    (late : (linux = false ∧ calls.setsockopt = false) ∨ calls.connect = false ∨
      (blocking = false ∧ calls.fcntl = false)) :
    (connectFd linux blocking calls).1.isOk = false ∧
      (connectFd linux blocking calls).2 = some new := by
  rw [connectFd, socket]
  dsimp only
  split_ifs with option refused mode
  · exact ⟨rfl, rfl⟩
  · exact ⟨rfl, rfl⟩
  · exact ⟨rfl, rfl⟩
  · rcases late with ⟨platform, failed⟩ | failed | ⟨waits, failed⟩
    · simp [platform, failed] at option
    · simp [failed] at refused
    · simp [waits, failed] at mode

theorem connect_late (fd : Option Nat) (late : Late linux blocking target calls) :
    (connect linux blocking fd target calls).1.isOk = false ∧
      (connect linux blocking fd target calls).2 ≠ none := by
  have ⟨found, made, failed⟩ := late
  have ⟨new, socket⟩ := Option.ne_none_iff_exists'.mp made
  have ⟨raised, left⟩ := connectFd_late socket failed
  have valid : (connectFd linux blocking calls).2 ≠ none := by
    rw [left]
    exact nofun
  cases target with
  | unix path => exact ⟨raised, valid⟩
  | tcp host port =>
      rw [connect, found host port rfl]
      exact ⟨raised, valid⟩

theorem connectFd_raised {new : Nat} (socket : calls.socket = some new)
    (raised : (connectFd linux blocking calls).1.isOk = false) :
    (linux = false ∧ calls.setsockopt = false) ∨ calls.connect = false ∨
      (blocking = false ∧ calls.fcntl = false) := by
  rw [connectFd, socket] at raised
  dsimp only at raised
  split_ifs at raised with option refused mode
  · simp only [Bool.and_eq_true, Bool.not_eq_true'] at option
    exact .inl option
  · exact .inr (.inl (by simpa using refused))
  · simp only [Bool.and_eq_true, Bool.not_eq_true'] at mode
    exact .inr (.inr mode)
  · cases raised

/-- A call that fails early leaves no descriptor, or the one from before. -/
theorem connect_early (early : ¬Late linux blocking target calls)
    (raised : (connect linux blocking fd target calls).1.isOk = false) :
    (connect linux blocking fd target calls).2 = fd ∨
      (connect linux blocking fd target calls).2 = none := by
  have withoutSocket (found : ∀ host port, target = .tcp host port → calls.gethostbyname = true)
      (failed : (connectFd linux blocking calls).1.isOk = false) :
      (connectFd linux blocking calls).2 = none := by
    cases socket : calls.socket with
    | none => rw [connectFd, socket]
    | some new =>
        exact (early ⟨found, by rw [socket]; simp, connectFd_raised socket failed⟩).elim
  cases target with
  | unix path => exact .inr (withoutSocket (by simp) raised)
  | tcp host port =>
      rw [connect] at raised ⊢
      split at raised
      next found =>
        rw [if_pos found]
        exact .inr (withoutSocket (fun _ _ _ => found) raised)
      next unknown =>
        rw [if_neg unknown]
        exact .inl rfl

end Connect

/-! ## The sender -/

/-- The parts of a request that `send` looks at. -/
structure Request where
  host : Bytes := noVal
  path : Bytes := noVal
  port : Int := -1

/-- Where a request goes. -/
def Request.target (request : Request) : Option Target :=
  if request.host ≠ noVal then some (.tcp request.host request.port)
  else if request.path ≠ noVal then some (.unix request.path)
  else none

/-- What has happened to the connection of a sender. -/
inductive Event where
  | attempt (remote : Bytes) (succeeded : Bool)
  | close
  /-- `add_event_task` has initialized and started the watcher. -/
  | register
  /-- `update_watcher` has passed its functor to the worker. -/
  | update
  deriving DecidableEq

/-- A sender, with all that has happened to it. -/
structure Sender where
  /-- `m_fd` of the socket, and `none` for -1. -/
  fd : Option Nat := none
  blocking : Bool := false
  remote : Bytes := []
  events : Ev := .undef
  changePending : Bool := false
  watcherInitialized : Bool := false
  log : List Event := []

namespace Sender

/-- `connected` -/
def connected (x : Sender) : Bool := x.fd.isSome

/-- `socket().close()` -/
def close (x : Sender) : Sender :=
  if x.connected then { x with fd := none, log := x.log ++ [.close] } else x

/-- `set_events` -/
def setEvents (x : Sender) (events : Ev) : Sender :=
  if x.events ≠ events then { x with events, changePending := true } else x

/-- `add_event_task` -/
def addEventTask (x : Sender) : Sender :=
  { x with watcherInitialized := true, log := x.log ++ [.register] }

/-- `update_watcher` -/
def updateWatcher (x : Sender) : Except Failure Unit × Sender :=
  if x.watcherInitialized then
    if x.changePending then
      (.ok (), { x with changePending := false, log := x.log ++ [.update] })
    else
      (.ok (), x)
  else
    (.error (.fault .assertion), x)

/-- `send`, after a connection to another remote was closed. -/
def connectOrUpdate (linux : Bool) (x : Sender) (target : Target) (calls : SystemCalls) :
    Except Failure Unit × Sender :=
  let x := { x with remote := target.remote }.setEvents .write
  if x.connected then
    x.updateWatcher
  else
    let (result, fd) := connect linux x.blocking x.fd target calls
    let x := { x with fd, log := x.log ++ [.attempt target.remote result.isOk] }
    match result with
    | .error e => (.error e, x)
    | .ok () => (.ok (), x.addEventTask)

/-- `send`.  `stop_watcher` has an assertion of its own. -/
def send (linux : Bool) (x : Sender) (request : Request) (calls : SystemCalls) :
    Except Failure Unit × Sender :=
  match request.target with
  | none =>
      (.error (.exception
        { error := .httpSenderInvalidRemote, what := "No host or path given" }), x)
  | some target =>
      if x.connected && x.remote ≠ target.remote then
        if x.watcherInitialized then
          connectOrUpdate linux x.close target calls
        else
          (.error (.fault .assertion), x)
      else
        connectOrUpdate linux x target calls

/-- `handle_event` when the request has been written. -/
def written (x : Sender) : Sender :=
  if x.watcherInitialized then (x.setEvents .read).updateWatcher.2 else x

/-- What is done with a sender. -/
inductive Op where
  | send (request : Request) (calls : SystemCalls)
  | close
  | written

def perform (linux : Bool) (x : Sender) : Op → Sender
  | .send request calls => (x.send linux request calls).2
  | .close => x.close
  | .written => x.written

/-- A new sender after some operations. -/
def run (linux blocking : Bool) (ops : List Op) : Sender :=
  ops.foldl (perform linux) { blocking }

/-! ## Traces of an attempt -/

/-- The most recent attempt has succeeded, and was not closed since. -/
def opened (log : List Event) : Bool :=
  log.foldl (fun before event =>
    match event with
    | .attempt _ succeeded => succeeded
    | .close => false
    | .register | .update => before) false

/-- The remote of the most recent attempt, if it has failed. -/
def lastFailed (log : List Event) : Option Bytes :=
  log.foldl (fun before event =>
    match event with
    | .attempt remote succeeded => if succeeded then none else some remote
    | .close | .register | .update => before) none

section Log

variable (log : List Event)

@[simp] theorem opened_attempt (remote : Bytes) (succeeded : Bool) :
    opened (log ++ [.attempt remote succeeded]) = succeeded := by
  simp [opened]

@[simp] theorem opened_register : opened (log ++ [.register]) = opened log := by
  simp [opened]

@[simp] theorem opened_update : opened (log ++ [.update]) = opened log := by
  simp [opened]

theorem opened_of_lastFailed {remote : Bytes} (failed : lastFailed log = some remote) :
    opened log = false := by
  induction log using List.reverseRecOn with
  | nil => rfl
  | append_singleton log event ih =>
      rw [lastFailed, List.foldl_append] at failed
      rw [opened, List.foldl_append]
      cases event with
      | attempt other succeeded =>
          cases succeeded with
          | true => cases failed
          | false => rfl
      | close => rfl
      | register => exact ih failed
      | update => exact ih failed

end Log

/-- The sender is only connected if its most recent attempt has succeeded and was not closed
since; and after an attempt that has failed, a request to that remote connects again, and
registers the watcher if this succeeds. -/
structure Traceless (linux : Bool) (x : Sender) : Prop where
  connected : x.connected = true → opened x.log = true
  again : ∀ remote, lastFailed x.log = some remote →
    ∀ request target, request.target = some target → target.remote = remote →
      ∀ calls, ∃ succeeded, (x.send linux request calls).2.log =
        x.log ++ .attempt remote succeeded :: if succeeded then [.register] else []

/-- The call of `send` attempts to connect, and a system call after `::socket` fails. -/
def FailsLate (linux : Bool) (x : Sender) (request : Request) (calls : SystemCalls) : Prop :=
  ∃ target, request.target = some target ∧
    (x.connected = false ∨ (x.remote ≠ target.remote ∧ x.watcherInitialized = true)) ∧
    Late linux x.blocking target calls

variable {linux : Bool} {x : Sender} {target : Target} {calls : SystemCalls}

@[simp] theorem setEvents_fd (events : Ev) : (x.setEvents events).fd = x.fd := by
  rw [setEvents]
  split <;> rfl

@[simp] theorem setEvents_blocking (events : Ev) :
    (x.setEvents events).blocking = x.blocking := by
  rw [setEvents]
  split <;> rfl

@[simp] theorem setEvents_log (events : Ev) : (x.setEvents events).log = x.log := by
  rw [setEvents]
  split <;> rfl

@[simp] theorem setEvents_connected (events : Ev) :
    (x.setEvents events).connected = x.connected := by
  rw [connected, setEvents_fd, connected]

theorem updateWatcher_keeps :
    x.updateWatcher.2.fd = x.fd ∧ opened x.updateWatcher.2.log = opened x.log := by
  rw [updateWatcher]
  split
  · split
    · exact ⟨rfl, opened_update x.log⟩
    · exact ⟨rfl, rfl⟩
  · exact ⟨rfl, rfl⟩

theorem close_connected : x.close.connected = false := by
  cases open_ : x.connected with
  | true =>
      rw [close, if_pos open_]
      rfl
  | false =>
      rw [close, if_neg (by rw [open_]; exact Bool.false_ne_true)]
      exact open_

theorem close_keeps : x.close.blocking = x.blocking := by
  rw [close]
  split <;> rfl

/-- The branch of a sender that is not connected. -/
theorem connectOrUpdate_unconnected (linux : Bool) (target : Target) (calls : SystemCalls)
    (unconnected : x.connected = false) :
    (connectOrUpdate linux x target calls).2.fd = (connect linux x.blocking x.fd target calls).2 ∧
      (connectOrUpdate linux x target calls).2.log =
        x.log ++ .attempt target.remote (connect linux x.blocking x.fd target calls).1.isOk ::
          if (connect linux x.blocking x.fd target calls).1.isOk then [.register] else [] := by
  rw [connectOrUpdate]
  have same : ({ x with remote := target.remote }.setEvents .write).connected = false := by
    rw [setEvents_connected]
    exact unconnected
  simp only [same, Bool.false_eq_true, if_false, setEvents_blocking, setEvents_fd, setEvents_log]
  cases connect linux x.blocking x.fd target calls with
  | mk result fd =>
      cases result with
      | error e => exact ⟨rfl, rfl⟩
      | ok _ => exact ⟨rfl, List.append_assoc ..⟩

/-- A sender that is not connected attempts to connect. -/
theorem send_unconnected {request : Request} (goes : request.target = some target)
    (unconnected : x.connected = false) :
    x.send linux request calls = connectOrUpdate linux x target calls := by
  rw [send, goes]
  simp only [unconnected, Bool.false_and, Bool.false_eq_true, if_false]

/-- The attempts that are made follow from what is known of the connection. -/
theorem traceless_of_connected (known : x.connected = true → opened x.log = true) :
    Traceless linux x where
  connected := known
  again := by
    intro remote failed request target goes same calls
    have unconnected : x.connected = false := by
      apply Bool.eq_false_iff.mpr
      intro connected
      have open' := known connected
      rw [opened_of_lastFailed _ failed] at open'
      cases open'
    rw [send_unconnected goes unconnected,
      (connectOrUpdate_unconnected linux target calls unconnected).2, same]
    exact ⟨_, rfl⟩

theorem connectOrUpdate_keeps (known : x.connected = true → opened x.log = true)
    (early : x.connected = false → ¬Late linux x.blocking target calls) :
    (connectOrUpdate linux x target calls).2.connected = true →
      opened (connectOrUpdate linux x target calls).2.log = true := by
  cases before : x.connected with
  | true =>
      have same : ({ x with remote := target.remote }.setEvents .write).connected = true := by
        rw [setEvents_connected]
        exact before
      have kept := updateWatcher_keeps (x := { x with remote := target.remote }.setEvents .write)
      rw [connectOrUpdate]
      simp only [same, if_true]
      rw [kept.2, setEvents_log]
      exact fun _ => known before
  | false =>
      have ⟨fd, log⟩ := connectOrUpdate_unconnected linux target calls before
      rw [connected, fd, log]
      intro open'
      cases result : (connect linux x.blocking x.fd target calls).1.isOk with
      | true => simp [opened]
      | false =>
          have none : x.fd = none := by simpa [connected] using before
          rcases connect_early (early before) result with left | left
          · rw [left, none] at open'
            cases open'
          · rw [left] at open'
            cases open'

theorem send_keeps {request : Request} (known : x.connected = true → opened x.log = true)
    (early : ¬FailsLate linux x request calls) :
    (x.send linux request calls).2.connected = true →
      opened (x.send linux request calls).2.log = true := by
  rw [send]
  cases goes : request.target with
  | none => exact known
  | some target =>
      dsimp only
      split
      next other =>
        simp only [Bool.and_eq_true, decide_eq_true_eq] at other
        split
        next registered =>
          apply connectOrUpdate_keeps
          · rw [close_connected]
            exact nofun
          · intro _ late
            rw [close_keeps] at late
            exact early ⟨target, goes, .inr ⟨other.2, registered⟩, late⟩
        next => exact known
      next =>
        apply connectOrUpdate_keeps known
        intro unconnected late
        exact early ⟨target, goes, .inl unconnected, late⟩

theorem perform_keeps {op : Op} (known : x.connected = true → opened x.log = true)
    (early : ∀ request calls, op = .send request calls → ¬FailsLate linux x request calls) :
    (x.perform linux op).connected = true → opened (x.perform linux op).log = true := by
  cases op with
  | send request calls => exact send_keeps known (early request calls rfl)
  | close =>
      rw [perform, close_connected]
      exact nofun
  | written =>
      rw [perform, written]
      split
      · have kept := updateWatcher_keeps (x := x.setEvents .read)
        rw [connected, kept.1, kept.2, setEvents_fd, setEvents_log]
        exact known
      · exact known

/-- An attempt that fails late leaves a descriptor. -/
theorem FailsLate.leaves {request : Request} (late : FailsLate linux x request calls) :
    (x.send linux request calls).2.connected = true ∧
      opened (x.send linux request calls).2.log = false := by
  have ⟨target, goes, attempts, fails⟩ := late
  have attempt {y : Sender} (blocking : y.blocking = x.blocking)
      (unconnected : y.connected = false) :
      (connectOrUpdate linux y target calls).2.connected = true ∧
        opened (connectOrUpdate linux y target calls).2.log = false := by
    have ⟨fd, log⟩ := connectOrUpdate_unconnected linux target calls unconnected
    rw [← blocking] at fails
    have ⟨raised, left⟩ := connect_late y.fd fails
    rw [connected, fd, log, raised]
    exact ⟨Option.isSome_iff_ne_none.mpr left, opened_attempt ..⟩
  cases before : x.connected with
  | false =>
      rw [send_unconnected goes before]
      exact attempt rfl before
  | true =>
      have ⟨other, registered⟩ := attempts.resolve_left (by rw [before]; simp)
      have differs : (x.connected && decide (x.remote ≠ target.remote)) = true := by
        rw [before, decide_eq_true other]
        rfl
      rw [send, goes]
      dsimp only
      rw [if_pos differs, if_pos registered]
      exact attempt close_keeps close_connected

theorem run_concat (linux blocking : Bool) (ops : List Op) (op : Op) :
    run linux blocking (ops ++ [op]) = (run linux blocking ops).perform linux op := by
  rw [run, List.foldl_append]
  rfl

/-- **A failed attempt leaves no trace.**  All along a sequence of operations the sender is
only connected after an attempt that has succeeded, and connects again after one that has
failed, exactly when no attempt fails in a system call after `::socket`. -/
theorem traceless_iff (linux blocking : Bool) (ops : List Op) :
    (∀ before rest, ops = before ++ rest → Traceless linux (run linux blocking before)) ↔
      ∀ before request calls rest, ops = before ++ .send request calls :: rest →
        ¬FailsLate linux (run linux blocking before) request calls := by
  constructor
  · intro traceless before request calls rest split late
    have ⟨connected, closed⟩ := late.leaves
    have next := traceless (before ++ [.send request calls]) rest (by rw [split]; simp)
    rw [run_concat] at next
    exact Bool.false_ne_true (closed.symm.trans (next.connected connected))
  · intro early before
    induction before using List.reverseRecOn with
    | nil => exact fun _ _ => traceless_of_connected fun open' => by cases open'
    | append_singleton before op ih =>
        intro rest split
        rw [List.append_assoc] at split
        rw [run_concat]
        apply traceless_of_connected
        apply perform_keeps (ih _ split).connected
        intro request calls same
        exact early before request calls rest (by rw [split, same]; rfl)

/-- A request to a path to which the connection is refused once. -/
def refusedOnce : List Op :=
  [.send { path := [47] } { socket := some 5, connect := false }]

/-- The sender is connected after the connection was refused, and the next request to the
same remote fails the assertion of `update_watcher`. -/
theorem not_traceless :
    ((Sender.send true {} { path := [47] } { socket := some 5, connect := false }).1.isOk = false ∧
      (run true false refusedOnce).connected = true ∧
      opened (run true false refusedOnce).log = false) ∧
    (Sender.send true (run true false refusedOnce) { path := [47] } { socket := some 6 }).1 =
        .error (.fault .assertion) ∧
      ¬Traceless true (run true false refusedOnce) := by
  refine ⟨by decide, rfl, ?_⟩
  intro traceless
  have open' := traceless.connected rfl
  cases open'

end Sender

end LibTasks.Net.SenderConnect
