import NearNotes.Digest.Sha256
import NearNotes.Text.Utf8
import NearNotes.Vector.Binary64
import NearNotes.Vector.Bytes

/-!
# Embeddings from digests

A vector that depends on a text alone, made of its digests: equal texts get equal vectors, and
distances mean nothing.

* `hashInput`: what is digested for one block of four elements: the text and the block's number;
* `elementOfWord`: a 64-bit word as a number between -1 and 1;
* `hashEmbedding`: the vector of a text.
-/

namespace NearNotes

/-- The bytes digested for a block: those of the text, then the block's number in eight bytes. -/
def hashInput (text : String) (block : Nat) : List UInt8 := Text.utf8Bytes text ++ leBytes 8 block

/-- A word spread over the numbers from -1 to 1. -/
def elementOfWord (w : UInt64) : Binary64 :=
  let unit := Binary64.ofWord w / Binary64.ofWord 0xFFFFFFFFFFFFFFFF
  unit * .ofFloat 2.0 - .ofFloat 1.0

/-- The elements that a digest gives: one for every eight bytes. -/
def elementsOfDigest : List UInt8 → Embedding
  | b₀ :: b₁ :: b₂ :: b₃ :: b₄ :: b₅ :: b₆ :: b₇ :: rest =>
    elementOfWord (UInt64.ofNat (ofLe [b₀, b₁, b₂, b₃, b₄, b₅, b₆, b₇])) :: elementsOfDigest rest
  | _ => []

def hashBlock (text : String) (block : Nat) : Embedding :=
  elementsOfDigest (Sha256.digest (hashInput text block))

/-- The vector of a text: blocks of four elements, cut to the dimension. -/
def hashEmbedding (dimension : Nat) (text : String) : Embedding :=
  ((List.range ((dimension + 3) / 4)).flatMap (hashBlock text)).take dimension

end NearNotes
