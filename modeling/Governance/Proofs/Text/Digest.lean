import Governance.Digest
import Governance.Proofs.Json.Quoted
import Governance.Proofs.Text.Split

/-!
# Digest text reads back

The text of a digest reads as the digest, with the name of the algorithm and without it.
-/

set_option autoImplicit false

namespace Governance

namespace ContentDigest

theorem utf8Size_hexDigit : ∀ value < 16, (Text.hexDigit value).utf8Size = 1 := by decide

theorem hexDigit_ne_plus : ∀ value < 16, Text.hexDigit value ≠ '+' := by decide

theorem pairValue?_byteHex (byte : UInt8) :
    pairValue? (Text.hexDigit (byte.toNat / 16)) (Text.hexDigit (byte.toNat % 16)) = some byte := by
  have small := byte.toNat_lt
  have whole : 16 * (byte.toNat / 16) + byte.toNat % 16 = byte.toNat := by omega
  simp only [pairValue?, Text.hexValue?_hexDigit (byte.toNat % 16) (by omega),
    Text.hexValue?_hexDigit (byte.toNat / 16) (by omega),
    hexDigit_ne_plus (byte.toNat / 16) (by omega), if_false, Option.bind_eq_bind, Option.bind_some,
    whole, UInt8.ofNat_toNat]

theorem readPairs_byteHex (place : Nat) (bytes : List UInt8) :
    readPairs place (bytes.flatMap Text.byteHex) = .ok bytes := by
  induction bytes generalizing place with
  | nil => rfl
  | cons byte bytes ih =>
      have small := byte.toNat_lt
      have first := utf8Size_hexDigit (byte.toNat / 16) (by omega)
      have second := utf8Size_hexDigit (byte.toNat % 16) (by omega)
      rw [List.flatMap_cons, Text.byteHex, List.cons_append, List.cons_append, List.nil_append,
        readPairs, if_pos first]
      simp only [second, if_true, pairValue?_byteHex, ih, Except.map]

theorem utf8Size_byteHex (start : Nat) (bytes : List UInt8) :
    (bytes.flatMap Text.byteHex).foldl (· + ·.utf8Size) start = start + 2 * bytes.length := by
  induction bytes generalizing start with
  | nil => rfl
  | cons byte bytes ih =>
      have small := byte.toNat_lt
      rw [List.flatMap_cons, List.foldl_append, ih, Text.byteHex, List.foldl_cons, List.foldl_cons,
        List.foldl_nil, utf8Size_hexDigit (byte.toNat / 16) (by omega),
        utf8Size_hexDigit (byte.toNat % 16) (by omega), List.length_cons]
      omega

theorem readHex_byteHex (digest : ContentDigest) :
    readHex (digest.bytes.flatMap Text.byteHex) = .ok digest := by
  have size := utf8Size_byteHex 0 digest.bytes
  rw [digest.length_eq] at size
  simp only [readHex, size, readPairs_byteHex, ne_eq, not_true_eq_false, if_false]
  rw [dif_pos digest.length_eq]

theorem parse_display (digest : ContentDigest) : parse digest.display = .ok digest := by
  have shape : digest.display.toList
      = algorithm.toList ++ ':' :: digest.bytes.flatMap Text.byteHex := by
    simp [display, hex]
  have noColon : ':' ∉ algorithm.toList := by decide
  rw [parse, shape, Text.splitOnce?_append noColon]
  simp only [String.ofList_toList, if_true, readHex_byteHex]

end ContentDigest

end Governance
