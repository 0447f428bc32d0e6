import WidgetBridge.Text.Basic

/-!
# Bytes of texts

Texts as bytes in UTF-8, and back. `decode` gives a replacement character for every longest part
of the bytes that starts a character and does not end it.
-/

namespace WidgetBridge.Text.Utf8

/-- The bytes of a text. -/
def encode (s : String) : List Nat := s.toUTF8.toList.map UInt8.toNat

/-- The character in the place of bytes that write none. -/
def replacement : Char := Char.ofNat 0xFFFD

/-- How many bytes follow a first byte, the range of the next one, and the bits it gives. -/
structure Lead where
  more : Nat
  low : Nat
  high : Nat
  bits : Nat

/-- Reads a first byte. -/
def lead? (b : Nat) : Option Lead :=
  if b < 0xC2 then none
  else if b ≤ 0xDF then some ⟨1, 0x80, 0xBF, b - 0xC0⟩
  else if b = 0xE0 then some ⟨2, 0xA0, 0xBF, 0⟩
  else if b = 0xED then some ⟨2, 0x80, 0x9F, 0xD⟩
  else if b ≤ 0xEF then some ⟨2, 0x80, 0xBF, b - 0xE0⟩
  else if b = 0xF0 then some ⟨3, 0x90, 0xBF, 0⟩
  else if b ≤ 0xF3 then some ⟨3, 0x80, 0xBF, b - 0xF0⟩
  else if b = 0xF4 then some ⟨3, 0x80, 0x8F, 4⟩
  else none

/-- Reads the bytes after a first byte. The second part is how many of them belong to it. -/
def follow : (more low high bits taken : Nat) → List Nat → Option Char × Nat
  | 0, _, _, bits, taken, _ => (some (Char.ofNat bits), taken)
  | more + 1, low, high, bits, taken, b :: bs =>
    if low ≤ b ∧ b ≤ high then follow more 0x80 0xBF (bits * 64 + (b - 0x80)) (taken + 1) bs
    else (none, taken)
  | _ + 1, _, _, _, taken, [] => (none, taken)

/-- Reads bytes; `none` stands for a part that writes no character. -/
def decodeParts : List Nat → List (Option Char)
  | [] => []
  | b :: bs =>
    if b < 0x80 then some (Char.ofNat b) :: decodeParts bs
    else match lead? b with
      | none => none :: decodeParts bs
      | some l =>
        let r := follow l.more l.low l.high l.bits 0 bs
        r.1 :: decodeParts (bs.drop r.2)
  termination_by bs => bs.length
  decreasing_by all_goals (simp only [List.length_cons, List.length_drop]; omega)

/-- The text of bytes, with replacement characters. -/
def decode (bs : List Nat) : String :=
  String.ofList ((decodeParts bs).map fun c => c.getD replacement)

/-- The text of bytes, if all of them write characters. -/
def decode? (bs : List Nat) : Option String := ((decodeParts bs).mapM id).map String.ofList

end WidgetBridge.Text.Utf8
