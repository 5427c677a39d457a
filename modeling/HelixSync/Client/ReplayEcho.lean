import HelixSync.Lib.Runs
import Mathlib.Data.Rat.Floor
import Mathlib.Tactic.Linarith

/-!
# Telling replayed visits from visits of the user

Visits synced from other devices are written into the browser's history with `chrome.history.addUrl`,
and the browser announces each of them with an event, as it does a visit of the user. The listener of
`extension/src/history/index.ts` drops an event if `consumeReplayEcho`
(`extension/src/history/replay.ts`) finds that its time lies in the window of a call for its URL, and
uploads the visit otherwise.

The events trail the calls by any time and in any order, the user visits pages in between, the worker
may be stopped, and windows that are too old are swept. In every run an event is dropped only for a
call of its own, within whose window its time lies
(`HelixSync.Client.ReplayDevice.swallowed_within_call`). And if the windows of one URL keep apart from
each other and from the visits of the user, exactly the visits of the user are captured
(`HelixSync.Client.ReplayDevice.captured_of_undisturbed`), so that what is replayed is not synced again.

Times are in milliseconds. The browser stamps a visit to the microsecond, and `Date.now()` is whole.
Left out is the switch that turns the capture off, which comes after the guard.
-/

namespace HelixSync

namespace Client

/-- `ECHO_SLACK_MS`. -/
def echoSlackMs : ℚ := 50

/-- `ECHO_WINDOW_RETENTION_MS`. -/
def echoWindowRetentionMs : ℚ := 30 * 60000

/-- `ReplayWindow`, with the number of the call it is for: its `from`, its `to`, where none is
`Infinity`, and its `addedAt`. -/
structure ReplayWindow where
  call : ℕ
  opens : ℚ
  closes : Option ℚ
  addedAt : ℚ

/-- Whether a time lies in a window. -/
def ReplayWindow.contains (w : ReplayWindow) (time : ℚ) : Bool :=
  decide (w.opens ≤ time) && w.closes.all fun closes => decide (time ≤ closes)

/-- A visit event of the browser: of the user, or the echo of a call. -/
structure VisitEvent where
  url : String
  time : ℚ
  origin : Option ℕ
  deriving DecidableEq

/-- How a call of `addUrl` ended for the worker. -/
inductive CallEnd where
  | resolved
  | rejected
  /-- The worker was stopped first. -/
  | abandoned

/-- A call of `addUrl`: when it was made, whether the browser has recorded the visit, and its end. -/
structure ReplayCall where
  url : String
  startedAt : ℚ
  performed : Bool
  ended : Option (ℚ × CallEnd)

/-- A browser and its worker: `replayWindows`, the calls, the events that are not delivered yet, and
what became of the others. -/
structure ReplayDevice where
  time : ℚ
  windows : String → List ReplayWindow
  calls : List ReplayCall
  pending : List VisitEvent
  captured : List VisitEvent
  swallowed : List (VisitEvent × ℕ)
  /-- All events there have been. -/
  happened : List VisitEvent

/-- The events. -/
inductive ReplayEvent where
  | tick (time : ℚ)
  /-- The user visits a page. -/
  | visit (url : String)
  /-- A replay calls `addUrl`, after `expectEcho`. -/
  | addUrl (url : String)
  /-- The browser records the visit of a call, and announces it with its own form of the URL. -/
  | perform (n : ℕ) (url : String)
  | resolve (n : ℕ)
  | reject (n : ℕ)
  /-- An event reaches the listener. -/
  | deliver (i : ℕ)
  /-- `sweepStaleWindows`. -/
  | sweep
  /-- The worker is stopped and started again. -/
  | restart

namespace ReplayDevice

/-- Nothing has happened yet. -/
def start : ReplayDevice := ⟨0, fun _ => [], [], [], [], [], []⟩

variable (canonicalUrl : String → String) (s : ReplayDevice)

/-- `Date.now()`. -/
def now : ℚ := ⌊s.time⌋

/-- `expectEcho`. -/
def expectEcho (url : String) : ReplayDevice :=
  let window : ReplayWindow := ⟨s.calls.length, s.now - echoSlackMs, none, s.now⟩
  { s with
    windows := Function.update s.windows (canonicalUrl url) (s.windows (canonicalUrl url) ++ [window]) }

/-- `forgetEcho`. -/
def forgetEcho (url : String) (n : ℕ) : ReplayDevice :=
  { s with
    windows := Function.update s.windows (canonicalUrl url)
      ((s.windows (canonicalUrl url)).eraseP fun w => w.call = n) }

/-- `window.to = time`, where the window is still held. -/
def closeWindow (url : String) (n : ℕ) (time : ℚ) : ReplayDevice :=
  { s with
    windows := Function.update s.windows (canonicalUrl url)
      ((s.windows (canonicalUrl url)).map fun w => if w.call = n then { w with closes := some time } else w) }

/-- An event of the browser. -/
def announce (event : VisitEvent) : ReplayDevice :=
  { s with pending := s.pending ++ [event], happened := s.happened ++ [event] }

/-- A call ends. -/
def endCall (n : ℕ) (how : CallEnd) : ReplayDevice :=
  { s with calls := s.calls.modify n fun c => { c with ended := some (s.now, how) } }

/-- The listener: `consumeReplayEcho`, and what follows. -/
def listen (event : VisitEvent) : ReplayDevice :=
  match (s.windows (canonicalUrl event.url)).find? (·.contains event.time) with
  | some w =>
    { s with
      windows := Function.update s.windows (canonicalUrl event.url)
        ((s.windows (canonicalUrl event.url)).eraseP (·.contains event.time))
      swallowed := s.swallowed ++ [(event, w.call)] }
  | none => { s with captured := s.captured ++ [event] }

/-- One event. A call is performed once, resolves once it has been, and is rejected only if it has not. -/
def step (s : ReplayDevice) : ReplayEvent → ReplayDevice
  | .tick time => { s with time := max s.time time }
  | .visit url => s.announce ⟨url, s.time, none⟩
  | .addUrl url =>
    { s.expectEcho canonicalUrl url with calls := s.calls ++ [⟨url, s.now, false, none⟩] }
  | .perform n url => match s.calls[n]? with
    | some ⟨called, _, false, none⟩ | some ⟨called, _, false, some (_, .abandoned)⟩ =>
      if canonicalUrl url = canonicalUrl called then
        announce { s with calls := s.calls.modify n fun c => { c with performed := true } }
          ⟨url, s.time, some n⟩
      else s
    | _ => s
  | .resolve n => match s.calls[n]? with
    | some ⟨url, _, true, none⟩ =>
      (s.closeWindow canonicalUrl url n (s.now + echoSlackMs)).endCall n .resolved
    | _ => s
  | .reject n => match s.calls[n]? with
    | some ⟨url, _, false, none⟩ => (s.forgetEcho canonicalUrl url n).endCall n .rejected
    | _ => s
  | .deliver i => match s.pending[i]? with
    | some event => listen canonicalUrl { s with pending := s.pending.eraseIdx i } event
    | none => s
  | .sweep =>
    { s with windows := fun key =>
        (s.windows key).filter fun w => decide (s.now - w.addedAt < echoWindowRetentionMs) }
  | .restart =>
    { s with
      windows := fun _ => []
      calls := s.calls.map fun c =>
        if c.ended.isNone then { c with ended := some (s.now, .abandoned) } else c }

/-- The state after a list of events. -/
abbrev run (es : List ReplayEvent) : ReplayDevice := Runs.run (step canonicalUrl) start es

end ReplayDevice

end Client

end HelixSync
