/-
Module: Kiln.Text.Utf8
Purpose: Reading bytes as text. A file or an input line must be well formed UTF-8; output that was cut
  off in the middle of a character is shown with a replacement character in its place.
Main exports: decode?, decodeLossy
-/

namespace Kiln.Text

/-- The text that the bytes encode, if they are well formed UTF-8. -/
def decode? (bytes : ByteArray) : Option String := String.fromUTF8? bytes

/-- What a decoder has seen of the current character. -/
inductive DecoderState where
  /-- Between two characters. -/
  | ready
  /-- Inside a character: the bits so far, how many bytes are missing, and the range in which the next
      one must lie. -/
  | inside (bits : Nat) (missing : Nat) (lo hi : UInt8)
deriving DecidableEq, Repr, Inhabited

/-- Stands for bytes that encode no character. -/
def replacement : Char := Char.ofNat 0xFFFD

/-- Begins a character at byte `b`: the characters that are complete by then and the state after it. The
    range of the second byte excludes overlong forms, surrogates and values above the last code point. -/
def beginChar (b : UInt8) : List Char × DecoderState :=
  if b < 0x80 then ([Char.ofNat b.toNat], .ready)
  else if b < 0xC2 then ([replacement], .ready)
  else if b < 0xE0 then ([], .inside (b.toNat % 32) 1 0x80 0xBF)
  else if b < 0xF0 then
    ([], .inside (b.toNat % 16) 2 (if b = 0xE0 then 0xA0 else 0x80) (if b = 0xED then 0x9F else 0xBF))
  else if b < 0xF5 then
    ([], .inside (b.toNat % 8) 3 (if b = 0xF0 then 0x90 else 0x80) (if b = 0xF4 then 0x8F else 0xBF))
  else ([replacement], .ready)

/-- One byte of decoding. A byte that cannot continue the character turns what was read of it into one
    replacement and is then read afresh. -/
def decodeStep (state : DecoderState) (b : UInt8) : List Char × DecoderState :=
  match state with
  | .ready => beginChar b
  | .inside bits missing lo hi =>
    if lo ≤ b && b ≤ hi then
      let bits := bits * 64 + b.toNat % 64
      if missing ≤ 1 then ([Char.ofNat bits], .ready)
      else ([], .inside bits (missing - 1) 0x80 0xBF)
    else
      let (chars, next) := beginChar b
      (replacement :: chars, next)

/-- The characters of `bytes` read on from `state`, with a replacement for every malformed piece. -/
def decodeFrom (state : DecoderState) : List UInt8 → List Char
  | [] => match state with
    | .ready => []
    | .inside .. => [replacement]
  | b :: rest =>
    let (chars, next) := decodeStep state b
    chars ++ decodeFrom next rest

/-- The text that the bytes encode, with a replacement character for every malformed piece. -/
def decodeLossy (bytes : ByteArray) : String :=
  match decode? bytes with
  | some text => text
  | none => String.ofList (decodeFrom .ready bytes.toList)

end Kiln.Text
