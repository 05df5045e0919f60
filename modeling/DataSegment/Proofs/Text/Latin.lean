import DataSegment.Text.Latin
import Mathlib.Data.List.Basic

namespace DataSegment.Text.Latin

/-- Each character of the text has a byte that stands for it. -/
def Encodable (text : Text) : Prop := ∀ letter ∈ text, letter.toNat < 256

instance (text : Text) : Decidable (Encodable text) :=
  inferInstanceAs (Decidable (∀ letter ∈ text, letter.toNat < 256))

/-- The bytes of a text that are not ASCII, in order. -/
def highBytes (text : Text) : List UInt8 := (encode text).filter (0x80 ≤ ·)

theorem highBytes_append (first second : Text) :
    highBytes (first ++ second) = highBytes first ++ highBytes second := by
  rw [highBytes, encode, List.map_append, List.filter_append]
  rfl

theorem encodable_decode (bytes : List UInt8) : Encodable (decode bytes) := by
  intro letter member
  obtain ⟨byte, _, rfl⟩ := List.mem_map.1 member
  exact byte.toNat_lt

theorem encodable_append {first second : Text} :
    Encodable (first ++ second) ↔ Encodable first ∧ Encodable second := List.forall_mem_append

theorem toNat_encodeLetter {letter : Char} (small : letter.toNat < 256) :
    (encodeLetter letter).toNat = letter.toNat := by
  rw [encodeLetter, if_pos small]
  exact UInt8.toNat_ofNat_of_lt' small

namespace Encodable

variable {text : Text} (encodable : Encodable text)
include encodable

/-- No character is substituted. -/
theorem toNat_encode : (encode text).map UInt8.toNat = text.map Char.toNat := by
  rw [encode, List.map_map]
  exact List.map_congr_left fun letter member => toNat_encodeLetter (encodable letter member)

theorem decode_encode : decode (encode text) = text := by
  have each : ∀ letter ∈ text, Char.ofUInt8 (encodeLetter letter) = letter := by
    intro letter member
    apply Char.toNat_inj.1
    rw [toNat_ofUInt8, toNat_encodeLetter (encodable letter member)]
  rw [decode, encode, List.map_map]
  exact (List.map_congr_left each).trans (List.map_id' text)

end Encodable

end DataSegment.Text.Latin
