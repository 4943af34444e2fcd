/-!
# Errors

`ParseError` says why a token gives no value; `CommandError` why a handler stopped.  Each has one
function for its wording.
-/
namespace CommandTree

/-- Why an argument type gives no value. -/
inductive ParseError
  /-- The line has ended, and the argument has neither a default nor leave to be absent. -/
  | requiredArgument
  /-- The token was meant for the argument and is refused; the path ends here. -/
  | invalid (message : String)
  /-- The token is not for this node. -/
  | noResult
deriving DecidableEq, Repr

def ParseError.message : ParseError → String
  | .requiredArgument => "A required argument is missing"
  | .invalid message => message
  | .noResult => "No result for input"

/-- Why a handler stopped. -/
inductive CommandError
  /-- The handler gave up, for a reason told to the user. -/
  | runtime (message : String)
  /-- The handler asked for an argument beyond the last one. -/
  | missingArgument (index : Nat)
  /-- The handler asked for an argument by the wrong type. -/
  | wrongArgumentType (index : Nat) (expected found : String)
  /-- The handler met a fault of the program. -/
  | internal (message : String)
deriving DecidableEq, Repr

def CommandError.message : CommandError → String
  | .runtime message => message
  | .missingArgument index =>
    "Internal error: Argument " ++ toString index ++
      " not found in ArgumentSet (command registration bug)"
  | .wrongArgumentType index expected found =>
    "Internal error: Argument " ++ toString index ++ " has wrong type, expected " ++ expected ++
      " but found " ++ found ++ " (command registration bug)"
  | .internal message => "Internal error (bug): " ++ message

end CommandTree
