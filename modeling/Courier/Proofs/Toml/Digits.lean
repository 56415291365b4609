import Courier.Toml.Scalar

/-!
# Reading numbers

A number is read back from its decimal digits (`ofBare?_toDigits`), if it fits 64 bits: its digits
are digits, the first of them is no zero unless it is the only one, and nothing among them could
stand for a sign, a base or a word.
-/

namespace Courier.Toml

open Scalar

variable {n : Nat} {c : Char}

/-! ## Digits -/

theorem isDigit_bounds (h : c.isDigit = true) : 48 ≤ c.toNat ∧ c.toNat ≤ 57 := by
  rw [Char.isDigit, Bool.and_eq_true, decide_eq_true_eq, decide_eq_true_eq] at h
  exact ⟨UInt32.le_iff_toNat_le.mp h.1, UInt32.le_iff_toNat_le.mp h.2⟩

theorem digitValue?_of_isDigit (h : c.isDigit = true) :
    digitValue? 10 c = some (c.toNat - 48) := by
  obtain ⟨hbottom, htop⟩ := isDigit_bounds h
  unfold digitValue?
  rw [if_pos (show '0' ≤ c ∧ c ≤ '9' from
    ⟨UInt32.le_iff_toNat_le.mpr hbottom, UInt32.le_iff_toNat_le.mpr htop⟩)]
  exact if_pos (by omega)

/-- Digits are read as their values. -/
theorem digits?_of_isDigit {cs : List Char} (hne : cs ≠ []) (h : ∀ c ∈ cs, c.isDigit = true) :
    digits? 10 cs = some (cs.map (·.toNat - 48)) := by
  induction cs with
  | nil => exact absurd rfl hne
  | cons c cs ih =>
    have hc := digitValue?_of_isDigit (h c (.head _))
    cases cs with
    | nil => simp [digits?, hc]
    | cons d cs =>
      have hrest := ih (List.cons_ne_nil d cs) fun d hd => h d (.tail _ hd)
      -- the next character is not an underscore
      have hunder : d ≠ '_' := by
        rintro rfl
        exact absurd (h '_' (.tail _ (.head _))) (by decide)
      rw [digits?.eq_4, hc, hrest]
      case x_1 => exact List.cons_ne_nil d cs
      case x_2 => exact fun _ heq => hunder (List.cons.inj heq).1
      rfl

/-! ## The digits of a number -/

theorem isDigit_of_mem_toDigits (h : c ∈ Nat.toDigits 10 n) : c.isDigit = true :=
  Nat.isDigit_of_mem_toDigits (by decide) (by decide) h

theorem not_mem_toDigits (hc : c.isDigit = false) : c ∉ Nat.toDigits 10 n := fun hmem => by
  rw [isDigit_of_mem_toDigits hmem] at hc
  cases hc

/-- A number has no leading zero. -/
theorem head?_toDigits (h : 0 < n) : (Nat.toDigits 10 n).head? ≠ some '0' := by
  induction n using Nat.strongRecOn with
  | ind n ih =>
    by_cases hn : n < 10
    · rw [Nat.toDigits_of_lt_base hn]
      simpa using Nat.ne_of_gt h
    · have hrest := ih (n / 10) (by omega) (by omega)
      obtain ⟨c, cs, hcs⟩ :=
        List.exists_cons_of_ne_nil (Nat.toDigits_ne_nil (n := n / 10) (b := 10))
      rw [Nat.toDigits_of_base_le (by decide) (by omega), hcs]
      rw [hcs] at hrest
      exact hrest

theorem plainDigits?_toDigits (n : Nat) :
    plainDigits? (Nat.toDigits 10 n) = some ((Nat.toDigits 10 n).map (·.toNat - 48)) := by
  unfold plainDigits?
  rw [digits?_of_isDigit Nat.toDigits_ne_nil fun _ => isDigit_of_mem_toDigits, Option.filter_some,
    if_pos]
  rw [decide_eq_true_eq]
  by_cases hn : n < 10
  · rw [Nat.toDigits_of_lt_base hn]
    exact .inl rfl
  · have hhead := head?_toDigits (n := n) (by omega)
    obtain ⟨c, cs, hcs⟩ := List.exists_cons_of_ne_nil (Nat.toDigits_ne_nil (n := n) (b := 10))
    have hc : c ∈ Nat.toDigits 10 n := by
      rw [hcs]
      exact .head _
    have hbottom := (isDigit_bounds (isDigit_of_mem_toDigits hc)).1
    rw [hcs, List.head?_cons, ne_eq, Option.some.injEq] at hhead
    rw [hcs, List.map_cons, List.head?_cons, ne_eq, Option.some.injEq]
    -- only the character zero has the value zero
    refine .inr fun hzero => hhead (Char.toNat_inj.mp ?_)
    show c.toNat = 48
    omega

theorem value_toDigits (n : Nat) : value 10 ((Nat.toDigits 10 n).map (·.toNat - 48)) = n := by
  unfold value
  rw [List.foldl_map]
  exact Nat.ofDigitChars_ten_toDigits

/-! ## Numbers -/

theorem sign_toDigits (n : Nat) : sign (Nat.toDigits 10 n) = (false, Nat.toDigits 10 n) := by
  unfold sign
  split
  · next heq => exact absurd (heq ▸ .head _) (not_mem_toDigits (n := n) (c := '+') (by decide))
  · next heq => exact absurd (heq ▸ .head _) (not_mem_toDigits (n := n) (c := '-') (by decide))
  · rfl

theorem decimal?_toDigits (h : fits n = true) : decimal? (Nat.toDigits 10 n) = some (n : Int) := by
  unfold decimal?
  rw [sign_toDigits]
  dsimp only
  rw [plainDigits?_toDigits]
  show (if fits (value 10 _ : Nat) = true then some _ else none) = _
  rw [value_toDigits, if_pos h]
  rfl

theorem integer?_toDigits (h : fits n = true) : integer? (Nat.toDigits 10 n) = some (n : Int) := by
  have hsecond (c : Char) (hc : c.isDigit = false) (rest : List Char) :
      Nat.toDigits 10 n ≠ '0' :: c :: rest := fun heq =>
    not_mem_toDigits (n := n) hc (heq ▸ .tail _ (.head _))
  unfold integer?
  split
  · next heq => exact absurd heq (hsecond 'x' (by decide) _)
  · next heq => exact absurd heq (hsecond 'o' (by decide) _)
  · next heq => exact absurd heq (hsecond 'b' (by decide) _)
  · exact decimal?_toDigits h

/-- A number is read back from its digits. -/
theorem ofBare?_toDigits (h : (n : Int) ≤ Int64.maxValue.toInt) :
    Value.ofBare? (Nat.toDigits 10 n) = some (.integer n) := by
  have hfits : fits n = true := by
    have hmin : Int64.minValue.toInt ≤ 0 := by decide
    simp only [fits, Bool.and_eq_true, decide_eq_true_eq]
    omega
  unfold Value.ofBare?
  rw [if_neg, if_neg, integer?_toDigits hfits]
  · exact fun heq => not_mem_toDigits (n := n) (c := 'f') (by decide) (heq ▸ .head _)
  · exact fun heq => not_mem_toDigits (n := n) (c := 't') (by decide) (heq ▸ .head _)

end Courier.Toml
