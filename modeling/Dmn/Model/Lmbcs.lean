import Dmn.Library.CharCode

/-! # `lmbcs`

Strings are byte strings. The code page of the Domino runtime is a parameter; UTF-8 is the
one of the standard library. -/

namespace Dmn

/-- UTF-8 with the decoder of the standard library. -/
def utf8 : CharCode Char UInt8 where
  encode := String.utf8EncodeChar
  decode bytes := match bytes.toByteArray.utf8DecodeChar? 0 with
    | some c => some (c, bytes.drop c.utf8Size)
    | none => none
  encode_ne_nil _ := String.utf8EncodeChar_ne_nil
  decode_nil := by
    cases h : ([] : List UInt8).toByteArray.utf8DecodeChar? 0 with
    | none => rfl
    | some c =>
        have := ByteArray.lt_size_of_isSome_utf8DecodeChar? (by rw [h]; rfl)
        simp at this
  decode_encode c rest := by
    rw [List.toByteArray_append, ByteArray.utf8DecodeChar?_utf8EncodeChar_append]
    simp [← String.length_utf8EncodeChar]

namespace Lmbcs

/-- The bytes of a text in ASCII. -/
def asciiBytes (text : List Char) : List UInt8 := text.map fun c => UInt8.ofNat c.toNat

theorem map_ofNat_asciiBytes {text : List Char} (h : ∀ c ∈ text, c.toNat < 2 ^ 8) :
    (asciiBytes text).map (fun byte => Char.ofNat byte.toNat) = text := by
  have hback : ∀ c ∈ text, Char.ofNat (UInt8.ofNat c.toNat).toNat = c := by
    intro c hc
    rw [UInt8.toNat_ofNat_of_lt' (h c hc), Char.ofNat_toNat]
  rw [asciiBytes, List.map_map]
  exact (List.map_congr_left hback).trans (List.map_id text)

/-- `OSTranslate`: both lengths are 16-bit words, whatever the caller passes. The bytes it
writes are its result. -/
def osTranslate (src dst : CharCode Char UInt8) (input : List UInt8) (inLength outLength : ℕ) :
    List UInt8 :=
  src.translate dst (inLength % 2 ^ 16 + 1) (input.take (inLength % 2 ^ 16))
    (outLength % 2 ^ 16)

variable (codePage : CharCode Char UInt8)

/-- `to_string_impl`. -/
def toString (str : List UInt8) : List UInt8 :=
  if str = [] then []
  else osTranslate codePage utf8 str str.length (str.length * 2)

def fromString (str : List UInt8) : List UInt8 :=
  if str = [] then []
  else osTranslate utf8 codePage str str.length (str.length * 2)

end Lmbcs

end Dmn
