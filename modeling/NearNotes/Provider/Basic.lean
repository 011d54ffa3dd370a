import NearNotes.Digest.Embedding
import NearNotes.Provider.Retry
import NearNotes.Storage.Table

/-!
# Providers

Where vectors come from: a source at the bottom, and layers around it that retry or read through
the cache.

* `Reply`: what a source does with one call: how long it takes and what comes of it;
* `Source`: a source, whose replies may depend on how often it has been called; `hashSource`
  answers at once with the digest of the text;
* `Provider`: a stack of layers on a source, where all layers that read through a cache share one; a
  layer over another cache is part of the source. The stack is known by its source's name, model and
  dimension.
-/

namespace NearNotes

structure Reply where
  /-- How long the answer takes. -/
  delay : Duration := .zero
  outcome : Except EmbedError Embedding
  /-- A value that another writer stores for the text when the call starts. -/
  rival : Option Cell := none

structure Source where
  name : String
  model : String
  dimension : Nat
  available : Bool := true
  /-- The reply to a text, given the number of earlier calls. -/
  reply : (earlier : Nat) → (text : String) → Reply
  /-- The answer to several texts at once, for a source that takes them together. -/
  replyAll : Option ((earlier : Nat) → List String → Except EmbedError (List Embedding)) := none

def hashSource (dimension : Nat) : Source where
  name := "hash"
  model := "sha256"
  dimension := dimension
  reply := fun _ text => { outcome := .ok (hashEmbedding dimension text) }

/-- A source and the layers around it. -/
inductive Provider
  | source (s : Source)
  /-- Every call has a time limit and is tried again as the plan says. -/
  | resilient (inner : Provider) (plan : RetryPlan)
  /-- Every call reads through the cache. -/
  | cached (inner : Provider)

namespace Provider

def base : Provider → Source
  | source s => s
  | resilient inner _ => inner.base
  | cached inner => inner.base

def name (p : Provider) : String := p.base.name

def model (p : Provider) : String := p.base.model

def dimension (p : Provider) : Nat := p.base.dimension

def isConfigured (p : Provider) : Bool := p.base.available

/-- A bound on the number of times that a call on the provider waits or is given a lock. -/
def waits : Provider → Nat
  | source _ => 1
  | resilient inner plan => (plan.maxRetries + 1) * (inner.waits + 2)
  | cached inner => inner.waits + 1

end Provider

end NearNotes
