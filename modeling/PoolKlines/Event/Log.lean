import PoolKlines.DecodeError
import PoolKlines.Event.Basic
import PoolKlines.Text.Blank

/-!
# Events in a program log

An event is a line of the log: a marker, then base64 text of the event's tag and its data. Blank
characters at the end of the line do not count.

`decodeLine` reads a line, `scanLog` and `decodeLog` a whole log.

A line without the marker or with an unknown tag is no event; any other line that is no event
either is an error, and a scan goes on after it.
-/

namespace PoolKlines

/-- What a line with event data begins with. -/
def eventMarker : List Char := "Program data: ".toList

/-- An event with its name and the number of its line. -/
structure DecodedEvent where
  name : String
  logIndex : Nat
  event : PoolEvent
  deriving DecidableEq

/-- What follows the marker of a line. -/
def eventData? (line : List Char) : Option (List Char) :=
  if eventMarker.isPrefixOf line then some (trimTrailing (line.drop eventMarker.length)) else none

/-- Read a line: the name of the event and the event, if the line holds one. -/
def decodeLine (registry : Registry PoolEvent) (line : String) :
    Except DecodeError (Option (String × PoolEvent)) :=
  match eventData? line.toList with
  | none => .ok none
  | some encoded =>
    match Base64.decode (String.ofList encoded) with
    | .error e => .error (.base64 e)
    | .ok payload =>
      if payload.length ≤ tagLength then .error (.shortData (tagLength + 1) payload.length)
      else
        match registry.decode? (payload.take tagLength) (payload.drop tagLength) with
        | none => .ok none
        | some (_, .error e) => .error (.read e)
        | some (name, .ok event) => .ok (some (name, event))

/-- Read a line, passing over errors. -/
def decodeLine? (registry : Registry PoolEvent) (line : String) : Option (String × PoolEvent) :=
  match decodeLine registry line with
  | .ok found => found
  | .error _ => none

/-- The events of a log in the order of its lines, and the errors of the lines that are neither an
event nor something else. -/
def scanLog (registry : Registry PoolEvent) (log : List String) :
    List DecodedEvent × List DecodeError :=
  (log.zipIdx.filterMap fun (line, index) =>
      match decodeLine registry line with
      | .ok (some (name, event)) => some ⟨name, index, event⟩
      | _ => none,
    log.filterMap fun line =>
      match decodeLine registry line with
      | .error e => some e
      | .ok _ => none)

/-- The events of a log, passing over the lines that are neither an event nor something else. -/
def decodeLog (registry : Registry PoolEvent) (log : List String) : List DecodedEvent :=
  log.zipIdx.filterMap fun (line, index) =>
    (decodeLine? registry line).map fun (name, event) => ⟨name, index, event⟩

@[simp] theorem scanLog_nil (registry : Registry PoolEvent) : scanLog registry [] = ([], []) := rfl

end PoolKlines
