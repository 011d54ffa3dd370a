import NearNotes.Json.Writer
import NearNotes.Provider.Work
import NearNotes.Remote.Body
import NearNotes.Remote.Url
import NearNotes.Text.Digits

/-!
# Remote sources

A source of vectors behind an HTTP interface: one request with one or several texts, one answer
with a vector for each.

* `Remote`: the key, the address, the model and the length that is asked for;
* `Remote.request`: the request for some texts, or why it cannot be sent;
* `Network`: what becomes of a request, given the number of earlier ones;
* `Remote.items`: the items that come back, or what went wrong;
* `Remote.source`: the source.
-/

namespace NearNotes

structure Remote where
  key : Option String
  baseUrl : String := "https://api.openai.com/v1"
  model : String := "text-embedding-3-small"
  /-- The length of vectors to ask for. -/
  dimensions : Option Nat := none
deriving DecidableEq, Repr

structure HttpRequest where
  url : Url
  authorization : String
  body : String
deriving DecidableEq, Repr

def HttpRequest.method : String := "POST"

def HttpRequest.contentType : String := "application/json"

structure HttpResponse where
  status : Nat
  body : List UInt8 := []
  /-- How long to wait before the next request, as the service words it. -/
  retryAfter : Option String := none
  /-- The answer broke off before its end. -/
  cutShort : Bool := false
deriving DecidableEq, Repr

inductive Delivery
  | refused
  | hungUp
  | answered (response : HttpResponse)
deriving DecidableEq, Repr

abbrev Network := HttpRequest → (earlier : Nat) → Delivery

namespace HttpResponse

/-- The wait that a service asks for: a minute unless it names a number of seconds. -/
def retrySecs (r : HttpResponse) : Nat := (r.retryAfter.bind seconds?).getD 60
where
  /-- A number of seconds that a 64-bit word holds. -/
  seconds? (value : String) : Option Nat :=
    let isEdge (c : Char) : Bool := c == ' ' || c == '\t'
    let cs := (value.toList.dropWhile isEdge).reverse.dropWhile isEdge |>.reverse
    Text.wordOf? (String.ofList cs)

/-- Answers of these kinds have no body, whatever is sent along. -/
def isBodyless (r : HttpResponse) : Bool := r.status == 204 || r.status == 304

def body? (r : HttpResponse) : Option (List UInt8) :=
  if r.isBodyless then some [] else if r.cutShort then none else some r.body

def items (r : HttpResponse) : Except EmbedError (List Remote.Item) :=
  if r.status = 429 then .error (.rateLimited r.retrySecs)
  else if r.status < 200 ∨ 300 ≤ r.status then
    .error (.apiRequest r.status ((r.body?.map Remote.bodyText).getD ""))
  else
    match r.body?.bind Remote.items? with
    | some items => .ok items
    | none => .error (.http .unreadable)

end HttpResponse

namespace Remote

/-- Only models of one family can be asked for shorter vectors. -/
def canShorten (r : Remote) : Bool := "text-embedding-3".toList.isPrefixOf r.model.toList

def askedLength (r : Remote) : Option Nat := if r.canShorten then r.dimensions else none

def dimension (r : Remote) : Nat :=
  r.askedLength.getD (if r.model == "text-embedding-3-large" then 3072 else 1536)

def body (r : Remote) (input : Input) : String :=
  let texts := match input with
    | .one text => Json.quoted text
    | .many texts => Json.array (texts.map Json.quoted)
  Json.object ([("input", texts), ("model", Json.quoted r.model)]
    ++ (r.askedLength.map fun n => ("dimensions", toString n)).toList)

def isHeaderChar (c : Char) : Bool := c == '\t' || (c.toNat ≥ 0x20 && c.toNat != 0x7F)

def request (r : Remote) (input : Input) : Except EmbedError HttpRequest :=
  match r.key with
  | none => .error .notConfigured
  | some key =>
    match Url.parse? (r.baseUrl ++ "/embeddings") with
    | none => .error (.http .unsendable)
    | some url =>
      if key.toList.all isHeaderChar then
        .ok ⟨url, "Bearer " ++ key, r.body input⟩
      else .error (.http .unsendable)

def items (r : Remote) (network : Network) (earlier : Nat) (input : Input) :
    Except EmbedError (List Item) := do
  let request ← r.request input
  match network request earlier with
  | .refused => throw (.http .refused)
  | .hungUp => throw (.http .hungUp)
  | .answered response => response.items

/-- The vector of one text: that of the first item. -/
def embedOne (r : Remote) (network : Network) (earlier : Nat) (text : String) : Answer := do
  match ← r.items network earlier (.one text) with
  | item :: _ => return item.embedding
  | [] => throw (.invalidResponse "No embedding in response")

/-- The vectors of several texts: as many items as texts, in the order of their places. Items that
are for one place stay in the order in which they came. -/
def embedMany (r : Remote) (network : Network) (earlier : Nat) (texts : List String) :
    Except EmbedError (List Embedding) := do
  let items ← r.items network earlier (.many texts)
  if items.length ≠ texts.length then
    throw (.invalidResponse s!"expected {texts.length} embeddings, got {items.length}")
  return (items.mergeSort fun a b => a.index ≤ b.index).map Item.embedding

def source (r : Remote) (network : Network) : Source where
  name := "openai"
  model := r.model
  dimension := r.dimension
  available := r.key.isSome
  reply := fun earlier text => { outcome := r.embedOne network earlier text }
  replyAll := some (r.embedMany network)

end Remote

end NearNotes
