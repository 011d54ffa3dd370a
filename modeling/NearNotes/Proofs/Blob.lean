import Mathlib
import NearNotes.Vector.Blob

/-!
# Reading blobs accepts exactly what writing makes

* `decodeElements_flatMap`, `flatMap_decodeElements` : elements and the bytes of a payload undo
  each other;
* `parse_framed` : what is read off a header with a payload behind it;
* `decode_eq_ok_iff` : the blobs that are accepted are the blobs of vectors with fewer than
  `2^32` elements;
* `decode_ok_or_refused` : there is no other failure than corrupt data (`Refused`);
* `encode_prefix_free` : no blob is the beginning of another one.
-/

namespace NearNotes.Blob

/-! ## Elements -/

@[simp] theorem length_encodeElement (x : Binary64) : (encodeElement x).length = 8 :=
  length_leBytes 8 _

@[simp] theorem length_flatMap_encodeElement (v : Embedding) :
    (v.flatMap encodeElement).length = v.length * 8 := by
  induction v with
  | nil => rfl
  | cons x v ih =>
      rw [List.flatMap_cons, List.length_append, ih, length_encodeElement, List.length_cons]
      omega

theorem ofLe_encodeElement (x : Binary64) : UInt64.ofNat (ofLe (encodeElement x)) = x.bits := by
  have hlt : x.bits.toNat < Nat.pow 256 8 := x.bits.toNat_lt
  rw [encodeElement, ofLe_leBytes, Nat.mod_eq_of_lt hlt, UInt64.ofNat_toNat]

theorem encodeElement_ofLe (bytes : List UInt8) (h : bytes.length = 8) :
    encodeElement ⟨UInt64.ofNat (ofLe bytes)⟩ = bytes := by
  have hlt : ofLe bytes < 2 ^ 64 := by
    have := ofLe_lt bytes
    rwa [h] at this
  rw [encodeElement, UInt64.toNat_ofNat_of_lt' hlt, ← h, leBytes_ofLe]

theorem decodeElements_append (bytes rest : List UInt8) (h : bytes.length = 8) :
    decodeElements (bytes ++ rest) = ⟨UInt64.ofNat (ofLe bytes)⟩ :: decodeElements rest := by
  match bytes, h with
  | [_, _, _, _, _, _, _, _], _ => rfl

theorem decodeElements_flatMap (v : Embedding) : decodeElements (v.flatMap encodeElement) = v := by
  induction v with
  | nil => rfl
  | cons x v ih =>
      rw [List.flatMap_cons, decodeElements_append _ _ (length_encodeElement x), ih,
        ofLe_encodeElement]

/-- A payload of whole elements is the payload of the elements that it spells. -/
theorem flatMap_decodeElements (count : Nat) (payload : List UInt8)
    (h : payload.length = count * 8) :
    (decodeElements payload).length = count ∧
      (decodeElements payload).flatMap encodeElement = payload := by
  induction count generalizing payload with
  | zero =>
      have hnil : payload = [] := List.eq_nil_of_length_eq_zero (by omega)
      subst hnil
      exact ⟨rfl, rfl⟩
  | succ count ih =>
      have hhead : (payload.take 8).length = 8 := by rw [List.length_take]; omega
      have htail : (payload.drop 8).length = count * 8 := by rw [List.length_drop]; omega
      obtain ⟨hlen, hbytes⟩ := ih _ htail
      rw [← List.take_append_drop 8 payload, decodeElements_append _ _ hhead]
      constructor
      · rw [List.length_cons, hlen]
      · rw [List.flatMap_cons, hbytes, encodeElement_ofLe _ hhead]

/-! ## Headers -/

theorem length_encode (v : Embedding) : (encode v).length = 8 + v.length * 8 := by
  simp only [encode, List.length_append, length_leBytes, length_flatMap_encodeElement,
    show magic.length = 4 from rfl]

/-- What is read off a header whose count field holds `count`, with some payload behind it. -/
theorem parse_framed (count : Nat) (payload : List UInt8) (h : count < 2 ^ 32) :
    parse (magic ++ leBytes 4 count ++ payload) =
      if payload.length ≠ count * 8 then
        .error (.payload (count * 8) count payload.length)
      else .ok (decodeElements payload) := by
  have hmagic : magic.length = 4 := rfl
  have hhead : (magic ++ leBytes 4 count).length = 8 := by
    rw [List.length_append, hmagic, length_leBytes]
  have hfound : (magic ++ leBytes 4 count ++ payload).take 4 = magic := by
    rw [List.append_assoc, ← hmagic, List.take_left]
  have hcount : ((magic ++ leBytes 4 count ++ payload).drop 4).take 4 = leBytes 4 count := by
    rw [List.append_assoc, ← hmagic, List.drop_left, hmagic,
      List.take_append_of_le_length (length_leBytes 4 count).ge,
      List.take_of_length_le (length_leBytes 4 count).le]
  have hpayload : (magic ++ leBytes 4 count ++ payload).drop 8 = payload := by
    rw [← hhead, List.drop_left]
  have hlong : ¬ (magic ++ leBytes 4 count ++ payload).length < 8 := by
    rw [List.length_append, hhead]
    omega
  have hvalue : ofLe (leBytes 4 count) = count := by
    rw [ofLe_leBytes]
    exact Nat.mod_eq_of_lt h
  simp only [parse, hfound, hcount, hpayload, hvalue, if_neg hlong, ne_eq, not_true_eq_false,
    if_false]

/-- A blob that is accepted is a header with the right count and the elements behind it. -/
theorem framed_of_parse {blob : List UInt8} {v : Embedding} (h : parse blob = .ok v) :
    ∃ count payload, count < 2 ^ 32 ∧ blob = magic ++ leBytes 4 count ++ payload ∧
      payload.length = count * 8 ∧ v = decodeElements payload := by
  simp only [parse] at h
  split at h
  · cases h
  · rename_i hlong
    split at h
    · cases h
    · rename_i hmagic
      split at h
      · cases h
      · rename_i hpayload
        have hfield : ((blob.drop 4).take 4).length = 4 := by
          rw [List.length_take, List.length_drop]
          omega
        refine ⟨ofLe ((blob.drop 4).take 4), blob.drop 8, ?_, ?_, not_not.mp hpayload,
          (Except.ok.inj h).symm⟩
        · have hlt := ofLe_lt ((blob.drop 4).take 4)
          rwa [hfield] at hlt
        · have hcount : leBytes 4 (ofLe ((blob.drop 4).take 4)) = (blob.drop 4).take 4 := by
            have := leBytes_ofLe ((blob.drop 4).take 4)
            rwa [hfield] at this
          have hrest : (blob.drop 4).take 4 ++ blob.drop 8 = blob.drop 4 := by
            rw [show blob.drop 8 = (blob.drop 4).drop 4 by rw [List.drop_drop],
              List.take_append_drop]
          rw [hcount, List.append_assoc, hrest, ← not_not.mp hmagic, List.take_append_drop]

/-! ## Reading and writing -/

theorem decode_eq_ok_iff_parse {blob : List UInt8} {v : Embedding} :
    decode blob = .ok v ↔ parse blob = .ok v := by
  unfold decode
  cases parse blob with
  | ok w => rw [Except.mapError, Except.ok.injEq, Except.ok.injEq]
  | error fault =>
      constructor
      · intro h
        cases h
      · intro h
        cases h

theorem encode_of_lt {v : Embedding} (h : v.length < 2 ^ 32) :
    encode v = magic ++ leBytes 4 v.length ++ v.flatMap encodeElement := by
  rw [encode, Nat.min_eq_left (show v.length ≤ maxCount by unfold maxCount; omega)]

theorem decode_encode {v : Embedding} (h : v.length < 2 ^ 32) : decode (encode v) = .ok v := by
  rw [decode_eq_ok_iff_parse, encode_of_lt h, parse_framed _ _ h,
    if_neg (not_not.mpr (length_flatMap_encodeElement v)), decodeElements_flatMap]

theorem encode_inj {v w : Embedding} (hv : v.length < 2 ^ 32) (hw : w.length < 2 ^ 32) :
    encode v = encode w ↔ v = w := by
  constructor
  · intro heq
    have hdecode := decode_encode hv
    rw [heq, decode_encode hw] at hdecode
    exact (Except.ok.inj hdecode).symm
  · rintro rfl
    rfl

theorem eq_encode_of_decode {blob : List UInt8} {v : Embedding} (h : decode blob = .ok v) :
    v.length < 2 ^ 32 ∧ blob = encode v := by
  obtain ⟨count, payload, hcount, rfl, hpayload, rfl⟩ :=
    framed_of_parse (decode_eq_ok_iff_parse.mp h)
  obtain ⟨hlen, hbytes⟩ := flatMap_decodeElements count payload hpayload
  have hlt : (decodeElements payload).length < 2 ^ 32 := hlen ▸ hcount
  refine ⟨hlt, ?_⟩
  rw [encode_of_lt hlt, hlen, hbytes]

theorem decode_eq_ok_iff {blob : List UInt8} {v : Embedding} :
    decode blob = .ok v ↔ v.length < 2 ^ 32 ∧ blob = encode v := by
  constructor
  · exact eq_encode_of_decode
  · rintro ⟨h, rfl⟩
    exact decode_encode h

/-! ## Refusal -/

/-- The blob is reported as corrupt. -/
def Refused (blob : List UInt8) : Prop := ∃ reason, decode blob = .error (.corruptData reason)

theorem decode_ok_or_refused (blob : List UInt8) : (∃ v, decode blob = .ok v) ∨ Refused blob := by
  unfold Refused decode
  cases parse blob with
  | ok v => exact Or.inl ⟨v, rfl⟩
  | error fault => exact Or.inr ⟨fault.message, rfl⟩

theorem refused_of_forall_ne {blob : List UInt8} (h : ∀ v, decode blob ≠ .ok v) : Refused blob := by
  rcases decode_ok_or_refused blob with ⟨v, hv⟩ | hrefused
  · exact absurd hv (h v)
  · exact hrefused

/-- The count field stops at the largest count, and the payload then is too long for it. -/
theorem refused_encode {v : Embedding} (h : 2 ^ 32 ≤ v.length) : Refused (encode v) := by
  apply refused_of_forall_ne
  intro w hw
  obtain ⟨hlt, heq⟩ := eq_encode_of_decode hw
  have hlen := congrArg List.length heq
  rw [length_encode, length_encode] at hlen
  omega

/-- No blob is the beginning of another one: the header tells where it ends. -/
theorem encode_prefix_free {v w : Embedding} (hv : v.length < 2 ^ 32) (hw : w.length < 2 ^ 32)
    (h : encode v <+: encode w) : encode v = encode w := by
  obtain ⟨rest, hrest⟩ := h
  rw [encode_of_lt hv, encode_of_lt hw, List.append_assoc, List.append_assoc,
    List.append_assoc] at hrest
  have hfields := List.append_cancel_left hrest
  have hcounts := (List.append_inj hfields (by rw [length_leBytes, length_leBytes])).1
  have hlen : v.length = w.length := by
    have := congrArg ofLe hcounts
    rw [ofLe_leBytes, ofLe_leBytes] at this
    rwa [Nat.mod_eq_of_lt (show v.length < Nat.pow 256 4 from hv),
      Nat.mod_eq_of_lt (show w.length < Nat.pow 256 4 from hw)] at this
  have hpayload := (List.append_inj hfields (by rw [length_leBytes, length_leBytes])).2
  have hnil : rest = [] := by
    have := congrArg List.length hpayload
    rw [List.length_append, length_flatMap_encodeElement, length_flatMap_encodeElement] at this
    exact List.eq_nil_of_length_eq_zero (by omega)
  rw [hnil, List.append_nil] at hpayload
  rw [encode_of_lt hv, encode_of_lt hw, hlen, hpayload]

/-- Of two accepted blobs neither is a proper beginning of the other. -/
theorem decode_prefix_free {blob other : List UInt8} {v w : Embedding}
    (hv : decode blob = .ok v) (hw : decode other = .ok w) (h : blob <+: other) : blob = other := by
  obtain ⟨hvlt, rfl⟩ := eq_encode_of_decode hv
  obtain ⟨hwlt, rfl⟩ := eq_encode_of_decode hw
  exact encode_prefix_free hvlt hwlt h

/-- A vector is read off exactly its own blob, every other blob is refused, and so are the proper
beginnings and continuations of an accepted blob and the blob of a vector that has more elements
than can be counted. -/
theorem decode_accepts_exactly_encodings (blob : List UInt8) (v : Embedding) :
    (decode blob = .ok v ↔ v.length < 2 ^ 32 ∧ blob = encode v) ∧
    ((∀ w : Embedding, w.length < 2 ^ 32 → blob ≠ encode w) → Refused blob) ∧
    (∀ other, decode blob = .ok v → other ≠ blob → other <+: blob ∨ blob <+: other →
      Refused other) ∧
    (2 ^ 32 ≤ v.length → Refused (encode v)) := by
  refine ⟨decode_eq_ok_iff, fun h => ?_, fun other hv hne hprefix => ?_, refused_encode⟩
  · apply refused_of_forall_ne
    intro w hw
    obtain ⟨hlt, heq⟩ := eq_encode_of_decode hw
    exact h w hlt heq
  · apply refused_of_forall_ne
    intro w hw
    rcases hprefix with hbefore | hafter
    · exact hne (decode_prefix_free hw hv hbefore)
    · exact hne (decode_prefix_free hv hw hafter).symm

/-- A negative zero and a NaN with a payload are read back bit by bit; a byte less or more is
refused, and so are no bytes at all and one element more than can be counted. -/
theorem decode_accepts_exactly_encodings_at_negZero_nan :
    let v : Embedding := [.negZero, ⟨0x7FF8000000000001⟩]
    let huge : Embedding := List.replicate (2 ^ 32) .negZero
    decode (encode v) = .ok v ∧ Refused [] ∧ Refused (encode v).dropLast ∧
      Refused (encode v ++ [0]) ∧ 2 ^ 32 ≤ huge.length ∧ Refused (encode huge) := by
  intro v huge
  have hv : decode (encode v) = .ok v :=
    (decode_accepts_exactly_encodings (encode v) v).1.mpr ⟨by decide, rfl⟩
  have hhuge : 2 ^ 32 ≤ huge.length := List.length_replicate.ge
  refine ⟨hv, ?_, ?_, ?_, hhuge, ?_⟩
  · refine (decode_accepts_exactly_encodings [] v).2.1 fun w _ h => ?_
    have := congrArg List.length h
    rw [length_encode, List.length_nil] at this
    omega
  · exact (decode_accepts_exactly_encodings (encode v) v).2.2.1 _ hv (by decide)
      (Or.inl (List.dropLast_prefix _))
  · exact (decode_accepts_exactly_encodings (encode v) v).2.2.1 _ hv (by decide)
      (Or.inr (List.prefix_append _ _))
  · exact (decode_accepts_exactly_encodings [] huge).2.2.2 hhuge

end NearNotes.Blob
