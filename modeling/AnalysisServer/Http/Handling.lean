import AnalysisServer.Http.Reply
import AnalysisServer.Request

/-!
What is done with a request over HTTP. Analyses are asked for under the name of their kind, with the
data in the body.
-/

namespace AnalysisServer.Http

structure Request where
  method : String
  path : String
  body : ByteArray := .empty
  upgrade : Bool := false

inductive Handling where
  | reply (r : Reply)
  | report
  | openChannel
  | stop
  | analyze (r : AnalysisServer.Request)

def isBlankByte (b : UInt8) : Bool :=
  b == 9 || b == 10 || b == 12 || b == 13 || b == 32

def invalidBody : AnalysisError :=
  .validation "Invalid JSON body: not a JSON value"

def dataOf (body : ByteArray) : Except AnalysisError Json :=
  if body.toList.all isBlankByte then .ok .null
  else
    match (String.fromUTF8? body).bind Json.ofText? with
    | some j => .ok j
    | none => .error invalidBody

namespace Request

def target (r : Request) : String :=
  String.ofList ((r.path.toList.takeWhile (· ≠ '?')).dropWhile (· = '/'))

def analysis (r : Request) : Except AnalysisError AnalysisServer.Request := do
  let data ← dataOf r.body
  AnalysisServer.Request.ofParts r.target data

def isAnalysis (r : Request) : Bool :=
  RequestKind.words.any (·.1 == r.target)

def handling (r : Request) : Handling :=
  match r.method, r.target with
  | "GET", "status" => .reply (.text .ok Response.acknowledgement)
  | "GET", "workers" => .report
  | "GET", "ws" => if r.upgrade then .openChannel else .reply .notFound
  | "POST", "close" => .stop
  | "POST", _ =>
    if r.isAnalysis then
      match r.analysis with
      | .ok request => .analyze request
      | .error e => .reply (.ofError e)
    else .reply .notFound
  | _, _ => .reply .notFound

/-- The reply as it is sent: to a request for the head alone, without its body. -/
def send (r : Request) (reply : Reply) : Reply :=
  if r.method == "HEAD" then reply.withoutBody else reply

end Request

end AnalysisServer.Http
