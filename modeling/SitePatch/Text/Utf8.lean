import SitePatch.Text

/-! # UTF-8 — from bytes to text

A file holds bytes; what is planned on it is text. `Utf8.decode` reads bytes as text, or says where
and how the bytes stop being UTF-8 (`Utf8.Fault`). Main statement: what `Utf8.encode` writes is read
back as it was (`decode_encode`). -/

namespace SitePatch.Utf8

/-- The bytes of a text. -/
def encode (t : Text) : ByteArray := (String.ofList t).toByteArray

/-! ## Where bytes stop being UTF-8 -/

/-- **The first fault in a sequence of bytes**: everything before `index` is UTF-8. `badBytes` is
the length of the ill-formed sequence that starts there, or nothing where the input ends inside a
character. -/
structure Fault where
  index : Nat
  badBytes : Option Nat
deriving DecidableEq, Repr

/-- The description of a fault. -/
def Fault.message (f : Fault) : Text :=
  match f.badBytes with
  | some n =>
    "invalid utf-8 sequence of " ++ Text.ofNat n ++ " bytes from index " ++ Text.ofNat f.index
  | none => "incomplete utf-8 byte sequence from index " ++ Text.ofNat f.index

/-- Whether a byte continues a character. -/
def isTail (b : UInt8) : Bool := 0x80 ≤ b && b ≤ 0xBF

/-- Whether `second` may follow the leading byte `lead`. The bounds leave out the forms that are too
long, the surrogates, and what lies beyond the last code point. -/
def isSecond (lead second : UInt8) : Bool :=
  if lead == 0xE0 then 0xA0 ≤ second && second ≤ 0xBF
  else if lead == 0xED then 0x80 ≤ second && second ≤ 0x9F
  else if lead == 0xF0 then 0x90 ≤ second && second ≤ 0xBF
  else if lead == 0xF4 then 0x80 ≤ second && second ≤ 0x8F
  else isTail second

/-- The number of bytes of the character that a leading byte announces. -/
def announced (lead : UInt8) : Option Nat :=
  if lead < 0x80 then some 1
  else if 0xC2 ≤ lead && lead ≤ 0xDF then some 2
  else if 0xE0 ≤ lead && lead ≤ 0xEF then some 3
  else if 0xF0 ≤ lead && lead ≤ 0xF4 then some 4
  else none

/-- How many of the bytes are tail bytes before the first that is not, up to `most`; nothing where
the bytes end first. -/
def tails (most : Nat) (bytes : List UInt8) : Except (Option Nat) Nat :=
  match most, bytes with
  | 0, _ => .ok 0
  | _ + 1, [] => .error none
  | n + 1, b :: bs =>
    if isTail b then
      match tails n bs with
      | .ok k => .ok (k + 1)
      | .error (some k) => .error (some (k + 1))
      | .error none => .error none
    else .error (some 0)

/-- The width of the character that starts with `lead` and goes on with `rest`, or the length of the
ill-formed sequence in its place. -/
def width (lead : UInt8) (rest : List UInt8) : Except (Option Nat) Nat :=
  match announced lead with
  | none => .error (some 1)
  | some 0 | some 1 => .ok 1
  | some (n + 2) =>
    match rest with
    | [] => .error none
    | second :: more =>
      if isSecond lead second then
        match tails n more with
        | .ok _ => .ok (n + 2)
        | .error (some k) => .error (some (k + 2))
        | .error none => .error none
      else .error (some 1)

/-- The first fault in the bytes from `index` on, after `skip` bytes of a character already read. -/
def faultFrom : (index skip : Nat) → List UInt8 → Fault
  | index, _, [] => ⟨index, none⟩
  | index, skip + 1, _ :: bs => faultFrom (index + 1) skip bs
  | index, 0, b :: bs =>
    match width b bs with
    | .ok n => faultFrom (index + 1) (n - 1) bs
    | .error badBytes => ⟨index, badBytes⟩

/-! ## Decoding -/

/-- The text of the bytes, or the first fault in them. -/
def decode (bytes : ByteArray) : Except Fault Text :=
  match bytes.utf8Decode? with
  | some cs => .ok cs.toList
  | none => .error (faultFrom 0 0 bytes.toList)

/-- Bytes written from a text are read back as that text. -/
@[simp] theorem decode_encode (t : Text) : decode (encode t) = .ok t := by
  simp [decode, encode, List.utf8Decode?_utf8Encode]

/-- Bytes that are read as a text are the bytes of that text. -/
theorem eq_encode_of_decode {bytes : ByteArray} {t : Text} (h : decode bytes = .ok t) :
    bytes = encode t := by
  rw [decode] at h
  split at h
  · rename_i cs hcs
    simp only [Except.ok.injEq] at h
    subst h
    have hsome : bytes.utf8Decode?.isSome := by rw [hcs]; rfl
    have := ByteArray.utf8Encode_get_utf8Decode? (b := bytes) (h := hsome)
    simp only [hcs, Option.get_some] at this
    rw [encode, String.toByteArray_ofList]
    exact this.symm
  · simp at h

end SitePatch.Utf8
