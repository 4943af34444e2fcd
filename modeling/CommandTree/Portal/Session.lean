import CommandTree.Text.Lowercase

/-!
# Sessions of the portal network

A session is who is typing, who else is online, which portal blocks have been handed out, and
what has been replied and not yet shown.

Results:
* `given_reply`, `replies_give`: replies and blocks do not touch each other.
-/
namespace CommandTree.Portal

/-- A portal block that has been handed out. -/
structure Block where
  owner : String
  kind : String
deriving DecidableEq, Repr

structure Session where
  name : String
  online : List String
  given : List Block := []
  replies : List String := []
deriving DecidableEq, Repr

namespace Session

def isConsole (s : Session) : Bool := Text.sameUpToAsciiCase s.name "console"

def reply (s : Session) (messages : List String) : Session :=
  { s with replies := s.replies ++ messages }

def give (s : Session) (block : Block) : Session := { s with given := s.given ++ [block] }

/-- The session once its replies have been shown. -/
def shown (s : Session) : Session := { s with replies := [] }

/-- The name under which a player is online, in any case of the letters A to Z. -/
def find? (s : Session) (player : String) : Option String :=
  s.online.find? fun name => Text.sameUpToAsciiCase name player

theorem given_reply (s : Session) (messages : List String) : (s.reply messages).given = s.given :=
  rfl

theorem replies_give (s : Session) (block : Block) : (s.give block).replies = s.replies := rfl

end Session

end CommandTree.Portal
