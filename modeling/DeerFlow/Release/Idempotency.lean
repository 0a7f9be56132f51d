import DeerFlow.JsonText
import DeerFlow.Release.Repository

/-!
# The identity of a release request

`compute_request_hash` hashes the compact JSON of the fields that say what a move is to do, without
the expected channel version and the actor. A replay record keeps the hash with the response.
-/

namespace DeerFlow

def asciiNullable : Option String → List Char
  | some s => asciiQuote s
  | none => ['n', 'u', 'l', 'l']

def ReleaseAction.text : ReleaseAction → String
  | promote => "promote"
  | rollback => "rollback"

def ReleaseChannel.text : ReleaseChannel → String
  | dev => "dev"
  | staging => "staging"
  | prod => "prod"

/-- `json.dumps(payload, sort_keys=True, separators=(",", ":"))`. -/
def MoveArgs.canonical (a : MoveArgs) : List Char :=
  "\x7b\"action\":".toList ++ asciiQuote a.action.text
    ++ ",\"channel\":".toList ++ asciiQuote a.channel.text
    ++ ",\"package_id\":".toList ++ asciiQuote a.packageId
    ++ ",\"reason\":".toList ++ asciiNullable a.reason
    ++ ",\"target_version_id\":".toList ++ asciiQuote a.targetVersionId.hex
    ++ ",\"workspace_id\":".toList ++ asciiNullable a.workspaceId
    ++ ['\x7d']

def computeRequestHash (sha256 : List Char → String) (a : MoveArgs) : String := sha256 a.canonical

structure PromoteResponse where
  channel : ChannelRow
  event : ReleaseEvent
  deriving DecidableEq

/-- A row of `release_idempotency_records`; it is found by organisation and key. -/
structure IdempotencyRecord where
  requestHash : String
  responsePayload : PromoteResponse
  statusCode : ℕ := 200

end DeerFlow
