import Courier.Text.Utf8
import Mathlib.Data.String.Basic

/-!
# The order of texts

Texts are compared character by character, and so are their UTF-8 octets: the octets of a character
with the larger code point come later in the order, whatever follows (`utf8EncodeChar_lt`).

* `octetsOf_eq`: the octets of a text are those of its characters, one after the other.
* `octetsOf_lt`: the octets of the text that comes first come first.
-/

namespace Courier

variable {c d : Char} {l l' : List Char} {a b : String}

theorem octetsOf_eq (s : String) : octetsOf s = s.toList.flatMap String.utf8EncodeChar := by
  have h : s.toByteArray = (s.toList.flatMap String.utf8EncodeChar).toByteArray := by
    rw [← String.utf8Encode_toList]
    rfl
  simp [octetsOf, String.toUTF8, h]

/-- There are 17 planes of code points. -/
theorem codePoint_lt (c : Char) : c.val.toNat < 17 * 2 ^ 16 := by
  rcases c.valid with h | ⟨-, h⟩ <;> omega

/-- Of two characters the one with the smaller code point has the octets that come first. The lead
octet grows with the number of octets; where that is the same, the octets are the digits of the code
point, and the first that differs decides. -/
theorem utf8EncodeChar_lt (h : c < d) (rest rest' : Octets) :
    String.utf8EncodeChar c ++ rest < String.utf8EncodeChar d ++ rest' := by
  have hlt : c.val.toNat < d.val.toNat := UInt32.lt_iff_toNat_lt.mp h
  have hc := codePoint_lt c
  have hd := codePoint_lt d
  unfold String.utf8EncodeChar
  dsimp only
  generalize c.val.toNat = v at *
  generalize d.val.toNat = w at *
  -- one case for each number of octets of `c` and of `d`; `d` never has fewer
  split_ifs
  all_goals first
    | omega
    | simp (disch := omega) only [List.cons_append, List.nil_append, List.cons_lt_cons_iff,
        UInt8.lt_iff_toNat_lt, ← UInt8.toNat_inj, UInt8.toNat_ofNat', Nat.mod_eq_of_lt]
      omega

theorem flatMap_utf8EncodeChar_lt (h : l < l') :
    l.flatMap String.utf8EncodeChar < l'.flatMap String.utf8EncodeChar := by
  induction l generalizing l' with
  | nil =>
    cases l' with
    | nil => exact absurd h (List.lt_irrefl [])
    | cons d l' =>
      obtain ⟨x, octets, hx⟩ := List.exists_cons_of_ne_nil (String.utf8EncodeChar_ne_nil (c := d))
      rw [List.flatMap_cons, hx]
      exact List.nil_lt_cons _ _
  | cons c l ih =>
    cases l' with
    | nil => exact absurd h (List.not_lt_nil _)
    | cons d l' =>
      rw [List.flatMap_cons, List.flatMap_cons]
      rcases List.cons_lt_cons_iff.mp h with hcd | ⟨rfl, hrest⟩
      · exact utf8EncodeChar_lt hcd _ _
      · exact List.append_left_lt (ih hrest)

theorem octetsOf_lt (h : a < b) : octetsOf a < octetsOf b := by
  rw [octetsOf_eq, octetsOf_eq]
  exact flatMap_utf8EncodeChar_lt h

end Courier
