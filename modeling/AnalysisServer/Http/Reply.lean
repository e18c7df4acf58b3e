import AnalysisServer.Json.Printer
import AnalysisServer.Result

/-!
Replies over HTTP. What an analysis finds out about a file, its faults included, is a success; an
error of the request or of the server is not.
-/

namespace AnalysisServer.Http

inductive Status where
  | ok
  | badRequest
  | notFound
  | internalError
  | gatewayTimeout
deriving DecidableEq

def Status.code : Status → Nat
  | ok => 200
  | badRequest => 400
  | notFound => 404
  | internalError => 500
  | gatewayTimeout => 504

def Status.ofError : AnalysisError → Status
  | .parsing _ _ | .programConstruction _ | .linterInitialization _ => ok
  | .validation _ => badRequest
  | .timeout _ => gatewayTimeout
  | .workerFailure _ | .config _ | .io _ => internalError

inductive ContentType where
  | text
  | json
deriving DecidableEq

def ContentType.value : ContentType → String
  | text => "text/plain; charset=utf-8"
  | json => "application/json"

structure Reply where
  status : Status
  type : ContentType
  body : String

namespace Reply

def text (status : Status) (body : String) : Reply :=
  ⟨status, .text, body⟩

def json (status : Status) (value : Json) : Reply :=
  ⟨status, .json, value.compact⟩

def notFound : Reply :=
  text .notFound "Not Found"

def ofError (e : AnalysisError) : Reply :=
  json (.ofError e) e.payload.toJson

variable [TextPaths]

def ofResponse : Response → Reply
  | .ack => text .ok Response.acknowledgement
  | r =>
    match r.encode with
    | .ok value => json .ok value
    | .error e => ofError e

def ofOutcome : Except AnalysisError Response → Reply
  | .ok r => ofResponse r
  | .error e => ofError e

def withoutBody (r : Reply) : Reply :=
  { r with body := "" }

end Reply

end AnalysisServer.Http
