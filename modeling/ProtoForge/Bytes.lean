import ProtoForge.Width

/-!
# Bytes

Byte strings as lists, their text and hexadecimal views, and the reading of
damaged text. A text is its UTF-8 form; reading bytes back as text either
succeeds exactly or, in the lossy reading, marks each unreadable stretch.
-/
namespace ProtoForge

/-- A byte string. -/
abbrev Bytes := List UInt8

namespace Bytes

/-- The UTF-8 form of a text. -/
def ofText (s : String) : Bytes := s.toList.flatMap String.utf8EncodeChar

/-- The text whose UTF-8 form these bytes are. -/
def toText? (b : Bytes) : Option String := String.fromUTF8? b.toByteArray

/-- The number of UTF-8 bytes of a text. -/
def textSize (s : String) : Nat := (ofText s).length

/-- A byte that continues a UTF-8 sequence. -/
def isContinuation (b : UInt8) : Bool := 0x80 ≤ b && b < 0xC0

/-- The number of continuation bytes announced by a first byte, with the range of the second. -/
def announced (b : UInt8) : Option (Nat × UInt8 × UInt8) :=
  if b < 0xC2 then none
  else if b < 0xE0 then some (1, 0x80, 0xBF)
  else if b = 0xE0 then some (2, 0xA0, 0xBF)
  else if b = 0xED then some (2, 0x80, 0x9F)
  else if b < 0xF0 then some (2, 0x80, 0xBF)
  else if b = 0xF0 then some (3, 0x90, 0xBF)
  else if b < 0xF4 then some (3, 0x80, 0xBF)
  else if b = 0xF4 then some (3, 0x80, 0x8F)
  else none

/-- The bytes after a first byte that may still belong to its sequence. -/
def continuationOf (b : UInt8) (rest : Bytes) : Bytes :=
  match announced b, rest with
  | some (n, lo, hi), c :: more =>
      if lo ≤ c && c ≤ hi then c :: (more.take (n - 1)).takeWhile isContinuation else []
  | _, _ => []

/-- The character spelled by a first byte and its continuation, if complete. -/
def spelled? (b : UInt8) (tail : Bytes) : Option Char :=
  if b < 0x80 then some (Char.ofNat b.toNat)
  else
    match announced b with
    | some (n, _, _) =>
        if tail.length = n then
          let high := b.toNat % Width.size (6 - n)
          some (Char.ofNat (tail.foldl (fun acc c => acc * 64 + c.toNat % 64) high))
        else none
    | none => none

/-- The characters of possibly damaged text: each maximal piece of a broken
sequence counts as one replacement character. -/
def lossyChars : Bytes → List Char
  | [] => []
  | b :: rest =>
      let tail := continuationOf b rest
      (spelled? b tail).getD '\uFFFD' :: lossyChars (rest.drop tail.length)
termination_by b => b.length
decreasing_by simp only [List.length_drop, List.length_cons]; omega

/-- The text of possibly damaged UTF-8. -/
def toTextLossy (b : Bytes) : String := String.ofList (lossyChars b)

/-- The hexadecimal digit of a number below sixteen. -/
def hexDigit (n : Nat) : Char :=
  if n < 10 then Char.ofNat (48 + n) else Char.ofNat (87 + n)

/-- The value of a hexadecimal digit. -/
def hexValue? (c : Char) : Option Nat :=
  if '0' ≤ c ∧ c ≤ '9' then some (c.toNat - 48)
  else if 'a' ≤ c ∧ c ≤ 'f' then some (c.toNat - 87)
  else if 'A' ≤ c ∧ c ≤ 'F' then some (c.toNat - 55)
  else none

/-- Two lower-case hexadecimal digits per byte. -/
def toHex (b : Bytes) : String :=
  String.ofList (b.flatMap fun x => [hexDigit (x.toNat / 16), hexDigit (x.toNat % 16)])

/-- The bytes written by pairs of hexadecimal digits. -/
def ofHexDigits? : List Char → Option Bytes
  | [] => some []
  | [_] => none
  | a :: b :: rest => do
      let hi ← hexValue? a
      let lo ← hexValue? b
      let more ← ofHexDigits? rest
      pure (UInt8.ofNat (16 * hi + lo) :: more)

/-- The bytes of a hexadecimal text. -/
def ofHex? (s : String) : Option Bytes := ofHexDigits? s.toList

/-- The eight bytes of a number of 64 bits, least significant first. -/
def ofNat64 (n : Nat) : Bytes := (List.range 8).map fun i => UInt8.ofNat (n >>> (8 * i))

@[simp] theorem length_ofNat64 (n : Nat) : (ofNat64 n).length = 8 := by simp [ofNat64]

@[simp] theorem ofText_empty : ofText "" = [] := rfl

theorem toText?_ofText (s : String) : toText? (ofText s) = some s := by
  have h : (ofText s).toByteArray = s.toByteArray := s.utf8Encode_toList
  rw [toText?, h, String.fromUTF8?, dif_pos s.isValidUTF8]
  rfl

theorem ofText_injective {s t : String} (h : ofText s = ofText t) : s = t :=
  Option.some.inj ((toText?_ofText s).symm.trans ((congrArg toText? h).trans (toText?_ofText t)))

end Bytes

end ProtoForge
