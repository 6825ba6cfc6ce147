import Governance.CommandLine.Run

/-!
# The program

Reads the files that the arguments name and the setting in the environment, and prints what the
library answers.
-/

set_option autoImplicit false

namespace Governance.Main

open CommandLine

def pathsOf (arguments : List String) : List String :=
  match Request.parse? arguments with
  | some (.run invocation) => invocation.paths
  | _ => []

def readText? (path : String) : IO (Option String) := do
  try
    let text ← IO.FS.readFile path
    pure (some text)
  catch _ => pure none

def readFiles (paths : List String) : IO Files := do
  let texts ← paths.mapM fun path => do
    let text ← readText? path
    pure (path, text)
  pure fun path => (Entries.find? path texts).join

def freshId : IO BundleId := do
  let bytes ← IO.getRandomBytes 16
  pure (BundleId.ofRandomBytes bytes.toList)

end Governance.Main

open Governance Governance.CommandLine in
def main (arguments : List String) : IO UInt32 := do
  let files ← Governance.Main.readFiles (Governance.Main.pathsOf arguments)
  let setting ← IO.getEnv looserSeverityVariable
  let response := respond arguments files setting (← Governance.Main.freshId)
  match response with
  | .printed text _ => IO.print text
  | .misused => IO.eprintln usageText
  | .failed cause => IO.eprintln cause.message
  pure response.exitCode.toUInt32
