import Mathlib
import NearNotes.Proofs.Provider.Layers

/-!
# Vectors from digests, place by place

Every element of a digest's vector has a place of its own: a word of a block that depends on the text
and the place alone. So a vector of another length has the same elements, more or fewer of them, and
collecting block after block until the vector is long enough makes the same vector.

* `wordAt` : a word among the bytes of a digest; `elementAt` : the element at a place;
* `elementsOfDigest_eq`, `hashBlock_eq`, `flatMap_hashBlock` : the elements of a digest, of a block and
  of the first blocks; `hashEmbedding_eq` : the vector is made of the elements at its places;
* `putUpTo`, `collect` : blocks put at the end of a vector, element by element, until there is no room;
  `putUpTo_hashBlock` : one block more; `collect_eq` : all of them;
* `hashInput_injective` : no two blocks are made of the same bytes, nor two texts;
* `Provider.hash_vector_by_place` : what a source of digests answers.
-/

namespace NearNotes

/-! ## Words and elements -/

/-- The word at a place among words of eight bytes, the least significant byte first. -/
def wordAt (bytes : List UInt8) (place : Nat) : UInt64 :=
  UInt64.ofNat (ofLe ((bytes.drop (8 * place)).take 8))

/-- The element at a place of the vectors of a text: there are four to a block. -/
def elementAt (text : String) (place : Nat) : Binary64 :=
  elementOfWord (wordAt (Sha256.digest (hashInput text (place / 4))) (place % 4))

theorem elementsOfDigest_eq (words : Nat) {bytes : List UInt8} (h : bytes.length = 8 * words) :
    elementsOfDigest bytes = (List.range words).map fun place => elementOfWord (wordAt bytes place) := by
  induction words generalizing bytes with
  | zero =>
      cases List.eq_nil_of_length_eq_zero h
      rfl
  | succ words ih =>
      match bytes, h with
      | _ :: _ :: _ :: _ :: _ :: _ :: _ :: _ :: rest, h =>
          have hrest : rest.length = 8 * words := by
            simp only [List.length_cons] at h
            omega
          rw [elementsOfDigest, ih hrest, List.range_succ_eq_map, List.map_cons, List.map_map]
          rfl

theorem hashBlock_eq (text : String) (block : Nat) :
    hashBlock text block = (List.range 4).map fun place => elementAt text (4 * block + place) := by
  rw [hashBlock, elementsOfDigest_eq 4 (Sha256.length_digest _)]
  refine List.map_congr_left fun place hplace => ?_
  have hplace := List.mem_range.mp hplace
  rw [elementAt, Nat.mul_add_div (by decide), Nat.div_eq_of_lt hplace, Nat.mul_add_mod,
    Nat.mod_eq_of_lt hplace, Nat.add_zero]

theorem flatMap_hashBlock (text : String) (blocks : Nat) :
    (List.range blocks).flatMap (hashBlock text) = (List.range (4 * blocks)).map (elementAt text) := by
  induction blocks with
  | zero => rfl
  | succ blocks ih =>
      rw [List.range_succ, List.flatMap_append, ih, List.flatMap_singleton, hashBlock_eq,
        Nat.mul_succ, List.range_add, List.map_append, List.map_map]
      rfl

theorem hashEmbedding_eq (dimension : Nat) (text : String) :
    hashEmbedding dimension text = (List.range dimension).map (elementAt text) := by
  have henough : min dimension (4 * ((dimension + 3) / 4)) = dimension := by omega
  rw [hashEmbedding, flatMap_hashBlock, ← List.map_take, List.take_range, henough]

/-- The vector of a text has the dimension that was asked for. -/
theorem length_hashEmbedding (dimension : Nat) (text : String) :
    (hashEmbedding dimension text).length = dimension := by
  rw [hashEmbedding_eq, List.length_map, List.length_range]

theorem getElem?_hashEmbedding {dimension place : Nat} (h : place < dimension) (text : String) :
    (hashEmbedding dimension text)[place]? = some (elementAt text place) := by
  rw [hashEmbedding_eq, List.getElem?_map, List.getElem?_range h]
  rfl

/-- A longer vector of a text begins with every shorter one. -/
theorem hashEmbedding_prefix {dimension larger : Nat} (h : dimension ≤ larger) (text : String) :
    hashEmbedding dimension text <+: hashEmbedding larger text := by
  obtain ⟨more, rfl⟩ := Nat.exists_eq_add_of_le h
  rw [hashEmbedding_eq, hashEmbedding_eq, List.range_add, List.map_append]
  exact List.prefix_append _ _

/-! ## Block after block -/

/-- Elements are put at the end of a vector one by one, until it has its length. -/
def putUpTo (dimension : Nat) : (v elements : Embedding) → Embedding
  | v, [] => v
  | v, x :: elements =>
    if v.length = dimension then v else putUpTo dimension (v ++ [x]) elements

theorem putUpTo_eq {dimension : Nat} {v : Embedding} (h : v.length ≤ dimension)
    (elements : Embedding) :
    putUpTo dimension v elements = v ++ elements.take (dimension - v.length) := by
  induction elements generalizing v with
  | nil => rw [putUpTo, List.take_nil, List.append_nil]
  | cons x elements ih =>
      rw [putUpTo]
      split
      · next hfull => rw [hfull, Nat.sub_self, List.take_zero, List.append_nil]
      · next hroom =>
          have hlength : (v ++ [x]).length = v.length + 1 := List.length_append
          have hleft : dimension - v.length = dimension - (v.length + 1) + 1 := by omega
          rw [ih (by omega), hlength, hleft, List.take_succ_cons, List.append_assoc]
          rfl

/-- Blocks from a number on are put at the end of a vector, until it has its length. -/
def collect (dimension : Nat) (text : String) (block : Nat) (v : Embedding) : Embedding :=
  if v.length < dimension then
    collect dimension text (block + 1) (putUpTo dimension v (hashBlock text block))
  else v
termination_by dimension - v.length
decreasing_by
  -- A block has four elements, and the first of them finds room.
  rw [putUpTo_eq (by omega), List.length_append, List.length_take, hashBlock_eq, List.length_map,
    List.length_range]
  omega

/-- After one block more, the elements at the places of this block are there too. -/
theorem putUpTo_hashBlock (dimension : Nat) (text : String) (block : Nat) :
    putUpTo dimension (hashEmbedding (min dimension (4 * block)) text) (hashBlock text block) =
      hashEmbedding (min dimension (4 * (block + 1))) text := by
  rw [putUpTo_eq (by rw [length_hashEmbedding]; omega), length_hashEmbedding, hashEmbedding_eq,
    hashEmbedding_eq, hashBlock_eq, ← List.map_take, List.take_range]
  have hsplit : min dimension (4 * (block + 1)) =
      min dimension (4 * block) + min (dimension - min dimension (4 * block)) 4 := by omega
  rw [hsplit, List.range_add, List.map_append, List.map_map]
  congr 1
  -- Where the block adds an element at all, the vector held whole blocks before.
  refine List.map_congr_left fun place hplace => ?_
  have hplace := List.mem_range.mp hplace
  have hwhole : min dimension (4 * block) = 4 * block := by omega
  rw [Function.comp, hwhole]

/-- From what some blocks have made of it, collecting comes to the vector of the text. -/
theorem collect_eq (dimension : Nat) (text : String) (block : Nat) :
    collect dimension text block (hashEmbedding (min dimension (4 * block)) text) =
      hashEmbedding dimension text := by
  generalize hleft : dimension - 4 * block = left
  induction left using Nat.strong_induction_on generalizing block with
  | _ left ih =>
      rw [collect, length_hashEmbedding]
      split
      · next hroom =>
          rw [putUpTo_hashBlock]
          exact ih _ (by omega) (block + 1) rfl
      · next hfull => rw [show min dimension (4 * block) = dimension by omega]

/-! ## Bytes that are digested -/

theorem leBytes_injective {width a b : Nat} (ha : a < Nat.pow 256 width) (hb : b < Nat.pow 256 width)
    (h : leBytes width a = leBytes width b) : a = b := by
  have hvalues := congrArg ofLe h
  rwa [ofLe_leBytes, ofLe_leBytes, Nat.mod_eq_of_lt ha, Nat.mod_eq_of_lt hb] at hvalues

theorem Text.utf8Bytes_injective : Function.Injective Text.utf8Bytes := by
  intro s t h
  exact String.toByteArray_inj.mp (ByteArray.ext (Array.toList_inj.mp h))

/-- The last eight bytes are the number of the block, so all the others are the text. -/
theorem hashInput_injective :
    Function.Injective fun input : String × UInt64 => hashInput input.1 input.2.toNat := by
  rintro ⟨text, block⟩ ⟨text', block'⟩ h
  -- Texts differ in length, so the two are split from the end.
  obtain ⟨htext, hblock⟩ := List.append_inj' h (by rw [length_leBytes, length_leBytes])
  have hnumber := leBytes_injective block.toNat_lt block'.toNat_lt hblock
  exact Prod.ext (Text.utf8Bytes_injective htext) (UInt64.toNat_inj.mp hnumber)

/-! ## The source of digests -/

theorem prompt_hashSource (dimension : Nat) :
    (hashSource dimension).Prompt fun _ => hashEmbedding dimension :=
  ⟨fun _ _ => rfl⟩

namespace Provider

theorem embed_hashSource (dimension : Nat) (text : String) (s : Session) :
    (source (hashSource dimension)).embed text s =
      (s.asking text, some (.ok (hashEmbedding dimension text))) :=
  embed_of_start rfl

/-- **A vector of digests, place by place.** A source of digests answers every text with as many
elements as it was set up for. The element at a place is made of a word of the digest of the text and of
the block's number, in eight bytes, four words to a block. So the vector begins every longer one, and
collecting block after block until there is no room makes neither more nor fewer elements. The bytes of
no two blocks are the same, nor are those of two texts. -/
theorem hash_vector_by_place (dimension : Nat) (text : String) (s : Session) :
    (∃ v, ((source (hashSource dimension)).embed text s).2 = some (.ok v) ∧
      v.length = dimension ∧
      (∀ place < dimension, v[place]? = some (elementOfWord
        (wordAt (Sha256.digest (Text.utf8Bytes text ++ leBytes 8 (place / 4))) (place % 4)))) ∧
      v = collect dimension text 0 [] ∧
      ∀ larger, dimension ≤ larger → ∀ s', ∃ w,
        ((source (hashSource larger)).embed text s').2 = some (.ok w) ∧ v <+: w) ∧
    Function.Injective fun input : String × UInt64 => hashInput input.1 input.2.toNat := by
  refine ⟨⟨hashEmbedding dimension text, ?_, length_hashEmbedding dimension text,
    fun place h => getElem?_hashEmbedding h text, ?_, fun larger h s' => ⟨hashEmbedding larger text, ?_,
      hashEmbedding_prefix h text⟩⟩, hashInput_injective⟩
  · rw [embed_hashSource]
  · have hnone : hashEmbedding (min dimension (4 * 0)) text = [] := by
      rw [Nat.mul_zero, Nat.min_zero, hashEmbedding_eq]
      rfl
    rw [← collect_eq dimension text 0, hnone]
  · rw [embed_hashSource]

/-- The fifth element is the first of the second block. -/
theorem hash_vector_by_place_fifth :
    ∃ v w, ((source (hashSource 5)).embed "# A\nfoo\n" {}).2 = some (.ok v) ∧
      ((source (hashSource 8)).embed "# A\nfoo\n" {}).2 = some (.ok w) ∧
      v.length = 5 ∧ v[4]? = some ⟨0xbfc2f4d9f59657c0⟩ ∧ v <+: w := by
  obtain ⟨⟨v, hv, hlength, hplaces, -, hlonger⟩, -⟩ := hash_vector_by_place 5 "# A\nfoo\n" {}
  obtain ⟨w, hw, hprefix⟩ := hlonger 8 (by decide) {}
  have hfifth : elementOfWord
      (wordAt (Sha256.digest (Text.utf8Bytes "# A\nfoo\n" ++ leBytes 8 (4 / 4))) (4 % 4)) =
        ⟨0xbfc2f4d9f59657c0⟩ := by
    decide +kernel
  exact ⟨v, w, hv, hw, hlength, (hplaces 4 (by decide)).trans (congrArg some hfifth), hprefix⟩

end Provider

end NearNotes
