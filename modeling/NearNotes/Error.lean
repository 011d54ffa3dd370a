import NearNotes.Text.Quoted

/-!
# Errors

What can go wrong, as causes, and how each cause is worded.

* `EmbedError`: failures of embedding, storing and comparing vectors; `message`, and the two
  classes that callers ask for, `blamesProvider` and `isTransient`;
* `RunError`: failures of a whole run; `message` and `blamesProvider`.
-/

namespace NearNotes

/-- Why an exchange with a remote service failed below the level of its answers. -/
inductive HttpFault
  /-- No connection. -/
  | refused
  /-- The connection ended before an answer came. -/
  | hungUp
  /-- An address or header that cannot be sent. -/
  | unsendable
  /-- A success answer whose body is cut short or is not what was agreed. -/
  | unreadable
deriving DecidableEq, Repr

def HttpFault.message : HttpFault → String
  | .refused | .hungUp => "error sending request"
  | .unsendable => "builder error"
  | .unreadable => "error decoding response body"

inductive EmbedError
  | notConfigured
  | apiRequest (status : Nat) (message : String)
  | invalidResponse (reason : String)
  | rateLimited (retryAfterSecs : Nat)
  | timeout (timeoutMs : Nat)
  | http (fault : HttpFault)
  | corruptData (reason : String)
  | dimensionMismatch (expected actual : Nat)
  | duplicateKey (text : String)
  | storage (reason : String)
  | io (reason : String)
deriving DecidableEq, Repr

namespace EmbedError

def message : EmbedError → String
  | notConfigured => "embedding provider not configured"
  | apiRequest status text => s!"API request failed ({status}): {text}"
  | invalidResponse reason => s!"invalid response: {reason}"
  | rateLimited secs => s!"rate limit exceeded, retry after {secs}s"
  | timeout ms => s!"embedding call timed out after {ms}ms"
  | http fault => s!"http error: {fault.message}"
  | corruptData reason => s!"corrupt embedding data: {reason}"
  | dimensionMismatch expected actual => s!"dimension mismatch: expected {expected}, got {actual}"
  | duplicateKey text =>
    "text already cached with a different embedding: " ++ Text.quote text
  | storage reason => s!"storage error: {reason}"
  | io reason => s!"io error: {reason}"

/-- The provider could not deliver, as opposed to a fault of storage or of the caller. -/
def blamesProvider : EmbedError → Bool
  | notConfigured | apiRequest .. | invalidResponse _ | rateLimited _ | timeout _ | http _ => true
  | _ => false

/-- Trying again may help: rate limits, timeouts, failures on the server's side and exchanges that
never got an answer. -/
def isTransient : EmbedError → Bool
  | rateLimited _ | timeout _ => true
  | apiRequest status _ => status ≥ 500 || status == 408
  | http .refused | http .hungUp => true
  | _ => false

end EmbedError

inductive RunError
  | embedding (cause : EmbedError)
  | config (reason : String)
  | tomlParse (reason : String)
  | noSection (offset : Nat)
  | pattern (reason : String)
  | io (reason : String)
deriving DecidableEq, Repr

namespace RunError

def message : RunError → String
  | embedding cause => s!"embedding error: {cause.message}"
  | config reason => s!"configuration error: {reason}"
  | tomlParse reason => s!"invalid configuration file: {reason}"
  | noSection offset => s!"no section at byte offset {offset}"
  | pattern reason => s!"invalid header pattern: {reason}"
  | io reason => s!"io error: {reason}"

def blamesProvider : RunError → Bool
  | embedding cause => cause.blamesProvider
  | _ => false

end RunError

end NearNotes
