/-!
# Byte strings

Stored values and payloads are lists of bytes. Texts are their UTF-8 bytes.
-/

namespace Fleet

/-- A string of bytes. -/
abbrev Bytes := List UInt8

namespace Bytes

/-- The UTF-8 bytes of a text. -/
def ofText (s : String) : Bytes := s.toUTF8.data.toList

/-- The text whose UTF-8 bytes these are, if there is one. -/
def text? (bytes : Bytes) : Option String := String.fromUTF8? ⟨bytes.toArray⟩

/-- The bytes of a text spell that text. -/
@[simp]
theorem text?_ofText (s : String) : text? (ofText s) = some s := by
  have h : (⟨(ofText s).toArray⟩ : ByteArray) = s.toByteArray := by simp [ofText, String.toUTF8]
  unfold text?
  rw [h, String.fromUTF8?, dif_pos s.isValidUTF8]
  rfl

/-- A number as eight bytes, most significant first. Numbers are taken modulo `2^64`. -/
def ofNat64 (n : Nat) : Bytes :=
  [56, 48, 40, 32, 24, 16, 8, 0].map fun shift => UInt8.ofNat (n >>> shift)

/-- The number that bytes denote, most significant first. -/
def toNat (bytes : Bytes) : Nat := bytes.foldl (fun n b => 256 * n + b.toNat) 0

end Bytes

end Fleet
