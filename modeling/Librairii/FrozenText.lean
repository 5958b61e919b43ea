import Mathlib

/-!
# Frozen text predicates, native names and textual escapes

Text predicates use the frozen white space ranges. Native names are byte
strings whose display repairs every invalid byte on its own. The five textual
escapes are applied one after the other to the serialized text.
-/

namespace Librairii.FrozenText

/-- The frozen white space ranges: first code, last code and stride. -/
def whiteSpace : List (ℕ×ℕ×ℕ) :=
  [(0x9,0xd,0x1),(0x20,0x85,0x65),(0xa0,0x1680,0x15e0),(0x2000,0x200a,0x1),
    (0x2028,0x2029,0x1),(0x202f,0x205f,0x30),(0x3000,0x3000,0x1)]

/-- Search the first range that does not end before the character. -/
def inRanges (character : Char) (ranges : List (ℕ×ℕ×ℕ)) : Bool :=
  match ranges.find? fun range => character.toNat≤range.2.1 with
  | none => false
  | some (lo,_,stride) => lo≤character.toNat && (character.toNat-lo)%stride=0

def isSpace (character : Char) : Bool := inRanges character whiteSpace

/-- Remove the selected characters at both ends. -/
def trimMatches (p : Char → Bool) (value : String) : String :=
  String.ofList (((value.toList.dropWhile p).reverse.dropWhile p).reverse)

/-- Frozen trimming of a text. -/
def tagTrim (value : String) : String := trimMatches isSpace value

def textPresent (value : String) : Bool := tagTrim value≠""

/-- The first character of a byte string when its bytes are well formed. -/
def decodeFirst (bytes : List UInt8) : Option Char :=
  (bytes.take 4).toByteArray.utf8DecodeChar? 0

/-- Repair one byte at a time; the fuel bounds the remaining bytes. -/
def displayChars : ℕ → List UInt8 → List Char
  | 0,_ => []
  | _,[] => []
  | fuel+1,byte::rest =>
    match decodeFirst (byte::rest) with
    | some character =>
      character::displayChars fuel ((byte::rest).drop character.utf8Size)
    | none => '\ufffd'::displayChars fuel rest

/-- Display exact native bytes with one replacement character per invalid byte. -/
def displayNativeText (bytes : List UInt8) : String :=
  String.ofList (displayChars bytes.length bytes)

/-- Decode a whole byte string, or nothing when any byte is invalid. -/
def fromUtf8 (bytes : List UInt8) : Option String := String.fromUTF8? bytes.toByteArray

def replace (character : Char) (text : List Char) (value : List Char) : List Char :=
  value.flatMap fun c => if c=character then text else [c]

/-- The five textual escapes, in their order. -/
def goEscapes (value : List Char) : List Char :=
  replace '\u2029' ['\\','u','2','0','2','9']
    (replace '\u2028' ['\\','u','2','0','2','8']
      (replace '>' ['\\','u','0','0','3','e']
        (replace '<' ['\\','u','0','0','3','c']
          (replace '&' ['\\','u','0','0','2','6'] value))))

end Librairii.FrozenText
