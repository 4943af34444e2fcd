import CommandTree.Portal.Session
import CommandTree.Registry

/-!
# The portal commands

`/pn give` hands a portal block to a player, `/pn list` lists the blocks handed out, `/pn reload`
reloads the network, and any other `/pn` line shows the help.  A block has one of the kinds in
`kinds`, given by a switch; the player is the one typing unless another is named.

Results:
* `kind_result_eq_ok_iff`: which tokens name a kind of portal.
-/
namespace CommandTree.Portal

def kinds : List String := ["nether", "end", "hidden"]

/-- A kind of portal, in any letter case. -/
def kindType {ε : Type} : ArgumentType ε where
  result token _ _ :=
    let kind := Text.lower token
    if kind ∈ kinds then .ok (.text kind)
    else .error (.invalid ("Invalid Portal Type: " ++ token))
  complete token _ around :=
    (kinds.filter fun kind => Text.beginsWith kind (Text.lower token)).take around.limit

def playerTypeName : String := "bcf::portal::Player"

def player (name : String) : Value := .handle ⟨0, playerTypeName, name⟩

/-- The player who is typing. -/
def selfResult (s : Session) : Except ParseError Value :=
  if s.isConsole then .error (.invalid "When console a player name is required")
  else .ok (player s.name)

/-- The player with a name: with `mode=online` one who is online, with `mode=any`, the default,
anyone. -/
def namedResult (s : Session) (token mode : String) : Except ParseError Value :=
  if mode = "online" then
    match s.find? token with
    | some name => .ok (player name)
    | none => .error (.invalid "No such player can be found online")
  else if mode = "any" then .ok (player ((s.find? token).getD token))
  else .error (.invalid ("Invalid mode: " ++ mode))

/-- A player; `%self` is the one typing. -/
def playerType : ArgumentType Session where
  result token d around :=
    if token = "%self" then selfResult around.env
    else namedResult around.env token ((d.parameter "mode").getD "any")
  complete token _ around :=
    (around.env.online.filter fun name => Text.beginsWith name token).take around.limit

def handler (arity : Nat) (act : Session → Arguments → Except CommandError Session) :
    Handler Session where
  arity
  run s args :=
    match act s args with
    | .ok s => { env := s }
    | .error e => { env := s, outcome := .error e }

def help : Handler Session := handler 0 fun s _ => .ok (s.reply
  ["========= [ PortalNetwork Help ] =========",
    "/pn reload - Reload the portal network",
    "/pn list - List handed out portal blocks",
    "/pn give [-type <type>] [player] - Give a player a portal block"])

/-- Tells why a value was refused. -/
def refuse : Handler Session := handler 1 fun s args => do
  let message ← args.getText 0
  return s.reply [message]

def reload : Handler Session where
  arity := 0
  run s _ :=
    { env := s.reply ["Reloaded PortalNetwork"]
      log := [⟨.info, s.name ++ " reloaded the portal network"⟩] }

def list : Handler Session := handler 0 fun s _ => .ok (s.reply
  (["========= [ List of Portals ] ========="] ++
    s.given.map (fun block => "[" ++ block.owner ++ "] " ++ block.kind) ++
    ["====================================="]))

def give : Handler Session := handler 2 fun s args => do
  let kind ← args.getText 0
  let owner ← args.getContent playerTypeName 1
  return (s.give ⟨owner, kind⟩).reply ["Giving " ++ owner ++ " a " ++ kind ++ " portal block."]

def givePath : String :=
  "give|g @portaltype(switch=type|t, default=NETHER) " ++
    "@player(required=true, default=%self, mode=online)"

/-- Adds the portal commands and their argument types to a registry. -/
def register (r : Registry Session) : Registry Session :=
  ((r.registerType "player" playerType).registerType "portaltype" kindType).command
    "portalnetwork|pn" fun t =>
      ((((t.bindPath "" .default help).bindPath "" .error refuse).bindPath "reload" .execute
        reload).bindPath "list" .execute list).bindPath givePath .execute give

theorem kind_result_eq_ok_iff {ε : Type} (token : String) (d : Descriptor)
    (around : Surroundings ε) (v : Value) :
    kindType.result token d around = .ok v ↔
      Text.lower token ∈ kinds ∧ v = .text (Text.lower token) := by
  show (if _ then _ else _) = _ ↔ _
  split <;> rename_i h <;> simp [h, eq_comm]

end CommandTree.Portal
