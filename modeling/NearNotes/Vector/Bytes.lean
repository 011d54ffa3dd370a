/-!
# Little-endian words

Numbers as bytes, the least significant first.

* `leBytes width n`: the lowest `width` bytes of `n`;
* `ofLe`: the number that bytes spell; `ofLe_leBytes` and `leBytes_ofLe` say that the two undo
  each other.
-/

namespace NearNotes

def leBytes : (width : Nat) → (n : Nat) → List UInt8
  | 0, _ => []
  | width + 1, n => UInt8.ofNat n :: leBytes width (n / 256)

def ofLe : List UInt8 → Nat
  | [] => 0
  | b :: bytes => b.toNat + 256 * ofLe bytes

@[simp] theorem length_leBytes (width n : Nat) : (leBytes width n).length = width := by
  induction width generalizing n with
  | zero => rfl
  | succ width ih => simp [leBytes, ih]

theorem ofLe_leBytes (width n : Nat) : ofLe (leBytes width n) = n % Nat.pow 256 width := by
  induction width generalizing n with
  | zero => simp [leBytes, ofLe, Nat.mod_one]
  | succ width ih =>
    have h : n % Nat.pow 256 (width + 1) = n % 256 + 256 * (n / 256 % Nat.pow 256 width) := by
      show n % (Nat.pow 256 width * 256) = _
      rw [Nat.mul_comm, Nat.mod_mul]
    rw [h]
    simp [leBytes, ofLe, ih]

theorem ofLe_lt (bytes : List UInt8) : ofLe bytes < Nat.pow 256 bytes.length := by
  induction bytes with
  | nil => simp [ofLe]
  | cons b bytes ih =>
    have := b.toNat_lt
    show b.toNat + 256 * ofLe bytes < Nat.pow 256 bytes.length * 256
    omega

theorem leBytes_ofLe (bytes : List UInt8) : leBytes bytes.length (ofLe bytes) = bytes := by
  induction bytes with
  | nil => rfl
  | cons b bytes ih =>
    have := b.toNat_lt
    have hq : (b.toNat + 256 * ofLe bytes) / 256 = ofLe bytes := by omega
    have hb : UInt8.ofNat (b.toNat + 256 * ofLe bytes) = b := by
      apply UInt8.toNat_inj.mp
      simp
    simp [leBytes, ofLe, hq, hb, ih]

end NearNotes
