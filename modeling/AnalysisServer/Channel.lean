import AnalysisServer.Request
import AnalysisServer.Result

namespace AnalysisServer.Channel

inductive Frame where
  | text (body : String)
  | binary
  | close

def invalidFrame : AnalysisError :=
  .validation "Invalid JSON frame: not a JSON value"

def request (body : String) : Except AnalysisError Request :=
  match Json.ofText? body with
  | some j => Request.ofEnvelope j
  | none => .error invalidFrame

variable [TextPaths]

def partFrame (p : Partial) : Json :=
  .obj [("results", p.toJson?.getD .null), ("ws", .bool true)]

def finalFrame (outcome : Except AnalysisError Response) : Json :=
  match outcome.bind Response.encode with
  | .ok results => .obj [("final", .bool true), ("results", results), ("ws", .bool true)]
  | .error e =>
    Json.ofFields (e.payload.toJson.obj?.getD [] ++ [("final", .bool true), ("ws", .bool true)])

structure Answer where
  queue : List Partial := []
  outcome : Option (Except AnalysisError Response) := none
  sent : List Json := []
  complete : Bool := false

/-- What may happen while a frame is answered: a part or the outcome comes in, or a frame goes out. -/
inductive Turn where
  | part (p : Partial)
  | outcome (o : Except AnalysisError Response)
  | push

namespace Answer

def step (a : Answer) : Turn → Option Answer
  | .part p =>
    if a.outcome.isNone then some { a with queue := a.queue ++ [p] } else none
  | .outcome o =>
    if a.outcome.isNone then some { a with outcome := some o } else none
  | .push =>
    match a.queue, a.outcome with
    | p :: rest, _ => some { a with queue := rest, sent := a.sent ++ [partFrame p] }
    | [], some o =>
      if a.complete then none else some { a with sent := a.sent ++ [finalFrame o], complete := true }
    | [], none => none

def frames (parts : List Partial) (o : Except AnalysisError Response) : List Json :=
  parts.map partFrame ++ [finalFrame o]

end Answer

/-- Serves frames one after the other, with somebody who serves their requests. -/
def serve {S : Type} (route : Request → S → (List Partial × Except AnalysisError Response) × S) :
    List Frame → S → List (List Json) × S
  | [], s => ([], s)
  | .close :: _, s => ([], s)
  | .binary :: rest, s =>
    let (answers, s) := serve route rest s
    ([] :: answers, s)
  | .text body :: rest, s =>
    let (answer, s) :=
      match request body with
      | .ok r =>
        let ((parts, o), s) := route r s
        (Answer.frames parts o, s)
      | .error e => (Answer.frames [] (.error e), s)
    let (answers, s) := serve route rest s
    (answer :: answers, s)

end AnalysisServer.Channel
