import NearNotes.Error
import NearNotes.Vector.Binary64
import NearNotes.Vector.Bytes

/-!
# Blobs

The stored form of a vector: the four bytes of `magic`, the number of elements as a 32-bit word
and the elements as 64-bit words, all little-endian.

* `encode`: the blob of a vector;
* `decode`: the vector of a blob, or what is wrong with it (`BlobFault`).
-/

namespace NearNotes.Blob

/-- The first bytes of every blob: `NV64`. -/
def magic : List UInt8 := [0x4E, 0x56, 0x36, 0x34]

/-- The largest number of elements that the count field can hold. -/
def maxCount : Nat := 0xFFFFFFFF

def encodeElement (x : Binary64) : List UInt8 := leBytes 8 x.bits.toNat

/-- The blob of a vector; a count that its field cannot hold stays at the largest. -/
def encode (v : Embedding) : List UInt8 :=
  magic ++ leBytes 4 (min v.length maxCount) ++ v.flatMap encodeElement

inductive BlobFault
  | shortHeader (length : Nat)
  | badMagic (found : List UInt8)
  | payload (expected count actual : Nat)
deriving DecidableEq, Repr

def hexByte (b : UInt8) : String :=
  String.ofList [Nat.digitChar (b.toNat / 16), Nat.digitChar (b.toNat % 16)]

def BlobFault.message : BlobFault → String
  | shortHeader length => s!"blob too short for header: {length} bytes"
  | badMagic found => "unexpected magic bytes [" ++ ", ".intercalate (found.map hexByte) ++ "]"
  | payload expected count actual =>
    s!"expected {expected} payload bytes for {count} elements, got {actual}"

/-- The elements that a payload spells, eight bytes each. -/
def decodeElements : List UInt8 → Embedding
  | b₀ :: b₁ :: b₂ :: b₃ :: b₄ :: b₅ :: b₆ :: b₇ :: rest =>
    ⟨UInt64.ofNat (ofLe [b₀, b₁, b₂, b₃, b₄, b₅, b₆, b₇])⟩ :: decodeElements rest
  | _ => []

def parse (blob : List UInt8) : Except BlobFault Embedding :=
  let found := blob.take 4
  let count := ofLe ((blob.drop 4).take 4)
  let payload := blob.drop 8
  if blob.length < 8 then .error (.shortHeader blob.length)
  else if found ≠ magic then .error (.badMagic found)
  else if payload.length ≠ count * 8 then .error (.payload (count * 8) count payload.length)
  else .ok (decodeElements payload)

def decode (blob : List UInt8) : Except EmbedError Embedding :=
  (parse blob).mapError fun fault => .corruptData fault.message

end NearNotes.Blob
