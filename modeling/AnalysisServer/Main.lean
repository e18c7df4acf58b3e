import AnalysisServer.Launch

/-!
The program. It serves one channel over its standard streams: each line that comes in is a frame, and
each frame that goes out is a line.
-/

namespace AnalysisServer.Main

def variableFront : String :=
  "LINTBRIDGE_"

partial def serve (setup : PoolSetup (List Path)) (input output : IO.FS.Stream)
    (server : Server (List Path)) : IO Unit := do
  let line ← input.getLine
  if line.isEmpty then return ()
  let (answers, server) := server.channel setup [.text line]
  for frame in (answers.getD []).flatten do
    output.putStrLn frame.compact
  output.flush
  serve setup input output server

def run (args : List String) : IO UInt32 := do
  let values ← CommandLine.environment.mapM fun v ↦ do
    return (v.2, ← IO.getEnv (variableFront ++ v.2))
  match CommandLine.read (fun name ↦ (values.lookup name).join) args with
  | .error e =>
    IO.eprintln e.message
    return e.exitCode
  | .ok c =>
    serve c.poolSetup (← IO.getStdin) (← IO.getStdout) c.server
    return 0

end AnalysisServer.Main

def main (args : List String) : IO UInt32 :=
  AnalysisServer.Main.run args
