import Courier.Identity

/-!
# Texts as octets

`octetsOf` is the UTF-8 form of a text and `textOf?` reads one back; octets that are not UTF-8
are no text. `textOf?_octetsOf` says that reading undoes writing.
-/

namespace Courier

/-- The UTF-8 octets of a text. -/
def octetsOf (s : String) : Octets :=
  s.toUTF8.data.toList

/-- The text whose UTF-8 octets these are. -/
def textOf? (bs : Octets) : Option String :=
  String.fromUTF8? ⟨bs.toArray⟩

@[simp] theorem textOf?_octetsOf (s : String) : textOf? (octetsOf s) = some s := by
  have h : (⟨(octetsOf s).toArray⟩ : ByteArray) = s.toByteArray := by
    simp [octetsOf, String.toUTF8]
  simp only [textOf?, h, String.fromUTF8?]
  split
  · rfl
  · rename_i hn
    exact absurd s.isValidUTF8 hn

end Courier
