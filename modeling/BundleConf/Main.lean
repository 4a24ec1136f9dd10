import BundleConf.Command.Run

/-!
# The command line

Carries out with real files and real output what `Printed.ofArguments` says.
-/

namespace BundleConf

/-- What there is to read at a path. -/
def lookUp (path : Path) : IO Lookup := do
  if path.text.isEmpty then return .error .notFound
  try
    let bytes ← IO.FS.readBinFile path.text
    return match String.fromUTF8? bytes with
      | some text => .ok text
      | none => .error .notText
  catch e =>
    return .error (match e with
      | .inappropriateType _ 21 _ => .isDirectory
      | .inappropriateType _ _ _ => .notDirectory
      | .permissionDenied .. => .refused "Permission denied (os error 13)"
      | _ => .notFound)

/-- Carries out a reading, and lists what it has looked up. -/
def Reading.carryOut {α : Type} : Reading α → List (Path × Lookup) → IO (α × List (Path × Lookup))
  | .done value, seen => pure (value, seen)
  | .look path next, seen => do
    let found ← lookUp path
    (next found).carryOut ((path, found) :: seen)

def Printed.print (p : Printed) : IO Unit := do
  (← IO.getStdout).putStr p.output
  (← IO.getStdout).flush
  (← IO.getStderr).putStr p.errors

/-- Whether two look-ups of a path have found the same. -/
def Lookup.isSame : Lookup → Lookup → Bool
  | .ok text, .ok text' => text == text'
  | .error cause, .error cause' => cause == cause'
  | _, _ => false

/-- Waits until something that was looked up has changed. -/
partial def awaitChange (seen : List (Path × Lookup)) : IO Unit := do
  IO.sleep 100
  for (path, found) in seen do
    if !Lookup.isSame (← lookUp path) found then return
  awaitChange seen

/-- Parses the configuration again and again, each time after something has changed. -/
partial def watchOn (settings : Settings) (keepScreen : Bool) (seen : List (Path × Lookup)) : IO Unit := do
  awaitChange seen
  if !keepScreen then IO.print "\x1b[2J\x1b[1;1H"
  IO.println "Configuration changed, parsing..."
  let (printed, seen) ← (Command.printRound settings).carryOut []
  printed.print
  watchOn settings keepScreen seen

end BundleConf

open BundleConf in
def main (arguments : List String) : IO UInt32 := do
  let (printed, seen) ← (Printed.ofArguments arguments).carryOut []
  printed.print
  match printed.status, Request.ofArguments? arguments with
  | some status, _ => return status.toUInt32
  | none, some (.run (.watch entry keepScreen) options) =>
    match ← (Settings.ofOptions options entry).carryOut [] with
    | (.ok settings, _) => watchOn settings keepScreen seen
    | _ => pure ()
    return 0
  | none, _ => return 0
