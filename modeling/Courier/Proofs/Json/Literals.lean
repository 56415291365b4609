import Courier.Json.Record
import Mathlib.Tactic.SplitIfs

/-!
# Reading back literals

A text, an integer or an octet string that was written into a JSON value is read back from it. This
is about literals alone; `Courier.Proofs.Json.Reading` is about the values they stand in.

* `unescape?_escape`: a text between quotes.
* `literalInt?_ofInt`: a numeral.
* `octets?_ofOctets`, `nullable?_ofOption`, `record?_ofFields`: what is built from them.
-/

namespace Courier

/-! ## Decimal numerals -/

namespace Decimal

/-- The numeral of a positive number begins with another digit than zero. -/
theorem digits_head {n : Nat} (h : 0 < n) :
    ∃ b rest, digits n = b :: rest ∧ b ≠ 0x30 ∧ isDigit b = true := by
  rw [digits]
  split
  · next hn =>
    refine ⟨_, _, rfl, ?_, isDigit_digit hn⟩
    have hall : ∀ d < 10, 0 < d → digit d ≠ 0x30 := by decide
    exact hall n hn h
  · obtain ⟨b, rest, heq, hb⟩ := digits_head (n := n / 10) (by omega)
    exact ⟨b, rest ++ [digit (n % 10)], by rw [heq]; rfl, hb⟩
termination_by n
decreasing_by omega

theorem all_isDigit_digits (n : Nat) : (digits n).all isDigit = true :=
  List.all_eq_true.mpr fun _ => isDigit_of_mem_digits

end Decimal

namespace Json

open Decimal

@[simp] theorem literalInt?_ofInt (n : Int) : literalInt? (Decimal.ofInt n) = some n := by
  unfold Decimal.ofInt
  split
  · next hn =>
    have hne : digits n.natAbs ≠ [0x30] := by
      obtain ⟨b, rest, heq, hb, -⟩ := digits_head (n := n.natAbs) (by omega)
      rw [heq]
      exact fun h => hb (List.cons.inj h).1
    show (if _ then _ else _) = _
    rw [if_pos ⟨all_isDigit_digits _, hne⟩, value_digits]
    congr 1
    omega
  · next hn =>
    unfold literalInt?
    split
    · next ds heq =>
      have hminus := isDigit_of_mem_digits (n := n.natAbs) (b := 0x2d) (by rw [heq]; exact .head _)
      exact absurd hminus (by decide)
    · rw [if_pos (all_isDigit_digits _), value_digits]
      congr 1
      omega

/-! ## Texts -/

/-- An escape of four digits stands for its control character. -/
theorem hexQuad?_control {b : UInt8} (h : b < 0x20) :
    hexQuad? 0x30 0x30 (hexDigit (b.toNat / 16)) (hexDigit (b.toNat % 16)) = some b.toNat ∧
      charOctets b.toNat = [b] := by
  have hall : ∀ n < 32, hexQuad? 0x30 0x30 (hexDigit (n / 16)) (hexDigit (n % 16)) = some n ∧
      charOctets n = [UInt8.ofNat n] := by decide
  simpa using hall b.toNat (UInt8.lt_iff_toNat_lt.mp h)

/-- An octet of a text is read back as it was written. -/
theorem unescapeInto_escapeOctet (b : UInt8) (done rest : Octets) :
    unescapeInto done none (escapeOctet b ++ rest) = unescapeInto (b :: done) none rest := by
  unfold escapeOctet
  split_ifs with hquote hslash hback htab hline hfeed hreturn hcontrol
  case pos => subst hquote; rfl
  case pos => subst hslash; rfl
  case pos => subst hback; rfl
  case pos => subst htab; rfl
  case pos => subst hline; rfl
  case pos => subst hfeed; rfl
  case pos => subst hreturn; rfl
  · obtain ⟨hquad, hchar⟩ := hexQuad?_control hcontrol
    have hlt : b.toNat < 0x20 := UInt8.lt_iff_toNat_lt.mp hcontrol
    simp only [List.cons_append, List.nil_append]
    rw [unescapeInto.eq_3 _ _ _ _ _ _ _ hquad, if_neg (by omega), if_neg (by omega), hchar]
    rfl
  · rw [List.singleton_append, unescapeInto]
    · rfl
    all_goals simp_all

theorem unescapeInto_flatMap (octets done : Octets) :
    unescapeInto done none (octets.flatMap escapeOctet) = some (done.reverse ++ octets) := by
  induction octets generalizing done with
  | nil => simp [unescapeInto]
  | cons b octets ih => simp [List.flatMap_cons, unescapeInto_escapeOctet, ih]

/-- A text is read back from what stands between the quotes. -/
@[simp] theorem unescape?_escape (s : String) : unescape? (escape s) = some s := by
  unfold unescape? escape
  rw [unescapeInto_flatMap]
  exact textOf?_octetsOf s

@[simp] theorem text?_ofText (s : String) : text? (ofText s) = some s :=
  unescape?_escape s

@[simp] theorem name?_ofText (s : String) : name? (ofText s) = some s :=
  unescape?_escape s

/-! ## Integers, octets and optional values -/

theorem intWithin?_ofInt {lo hi n : Int} (hlo : lo ≤ n) (hhi : n ≤ hi) :
    intWithin? lo hi (ofInt n) = some n := by
  unfold intWithin? ofInt
  simp only [literalInt?_ofInt]
  rw [Option.filter_some, if_pos (by simp [hlo, hhi])]

theorem intWithin?_ofInt_eq (lo hi n : Int) :
    intWithin? lo hi (ofInt n) = if lo ≤ n ∧ n ≤ hi then some n else none := by
  split
  · next h => exact intWithin?_ofInt h.1 h.2
  · next h =>
    unfold intWithin? ofInt
    simp only [literalInt?_ofInt]
    rw [Option.filter_some, if_neg (by simpa using h)]

/-- An integer that the column of an id holds. -/
def IsRowId (n : Int) : Prop :=
  Int64.minValue.toInt ≤ n ∧ n ≤ Int64.maxValue.toInt

instance (n : Int) : Decidable (IsRowId n) :=
  inferInstanceAs (Decidable (_ ∧ _))

theorem rowId?_ofInt (n : Int) : rowId? (ofInt n) = if IsRowId n then some n else none :=
  intWithin?_ofInt_eq _ _ n

@[simp] theorem uint8?_ofInt (b : UInt8) : uint8? (ofInt b.toNat) = some b := by
  have hlt := b.toNat_lt
  unfold uint8?
  rw [intWithin?_ofInt (by omega) (by omega)]
  simp

@[simp] theorem uint16?_ofInt (n : UInt16) : uint16? (ofInt n.toNat) = some n := by
  have hlt := n.toNat_lt
  unfold uint16?
  rw [intWithin?_ofInt (by omega) (by omega)]
  simp

@[simp] theorem uint64?_ofInt (n : UInt64) : uint64? (ofInt n.toNat) = some n := by
  have hlt := n.toNat_lt_size
  unfold uint64?
  rw [intWithin?_ofInt (by omega) (by omega)]
  simp

@[simp] theorem int64?_ofInt (n : Int64) : int64? (ofInt n.toInt) = some n := by
  unfold int64? rowId?
  rw [intWithin?_ofInt (Int64.le_iff_toInt_le.mp (Int64.minValue_le n))
    (Int64.le_iff_toInt_le.mp (Int64.le_maxValue n))]
  simp

/-- A list is read back if each of its items is. -/
theorem list?_array {α : Type} {f : Json → Option α} {g : α → Json} (h : ∀ a, f (g a) = some a)
    (as : List α) : list? f (.array (as.map g)) = some as := by
  show (as.map g).mapM f = some as
  induction as with
  | nil => rfl
  | cons a as ih =>
    rw [List.map_cons, List.mapM_cons, h, ih]
    rfl

@[simp] theorem octets?_ofOctets (bs : Octets) : octets? (ofOctets bs) = some bs :=
  list?_array uint8?_ofInt bs

/-- An optional value is read back if no value is written as `null`. -/
theorem nullable?_ofOption {α : Type} {f : Json → Option α} {g : α → Json}
    (h : ∀ a, f (g a) = some a) (hnull : ∀ a, g a ≠ .null) (o : Option α) :
    nullable? f (ofOption g o) = some o := by
  cases o with
  | none => rfl
  | some a =>
    unfold nullable? ofOption
    split
    · next heq => exact absurd heq (hnull a)
    · rw [h]
      rfl

@[simp] theorem nullable?_ofText (o : Option String) :
    nullable? text? (ofOption ofText o) = some o :=
  nullable?_ofOption text?_ofText (fun _ => nofun) o

@[simp] theorem nullable?_ofOctets (o : Option Octets) :
    nullable? octets? (ofOption ofOctets o) = some o :=
  nullable?_ofOption octets?_ofOctets (fun _ => nofun) o

@[simp] theorem nullable?_ofInt64 (o : Option Int64) :
    nullable? int64? (ofOption (fun n => ofInt n.toInt) o) = some o :=
  nullable?_ofOption int64?_ofInt (fun _ => nofun) o

/-! ## Records -/

/-- The names of the members are read back. -/
theorem mapM_unescape_escape (fields : List (String × Json)) :
    (fields.map fun (name, v) => (escape name, v)).mapM
      (fun (raw, v) => (unescape? raw).map fun name => (name, v)) = some fields := by
  induction fields with
  | nil => rfl
  | cons p fields ih =>
    rw [List.map_cons, List.mapM_cons, ih]
    simp

/-- The fields of a record are read back, each under its name, whatever their order. -/
theorem record?_ofFields_of_perm {fields : List (String × Json)} {names : List String}
    (hnodup : names.Nodup) (hnames : (fields.map (·.1)).Perm names) :
    (ofFields fields).record? names = some ⟨false, fields⟩ := by
  have hall : ∀ p ∈ fields, names.contains p.1 := fun p hp => by
    simpa [← hnames.mem_iff] using ⟨p.2, hp⟩
  unfold ofFields record?
  simp only [mapM_unescape_escape, Option.bind_eq_bind, Option.bind_some,
    List.filter_eq_self.mpr hall, if_pos (hnames.nodup_iff.mpr hnodup)]

theorem record?_ofFields {fields : List (String × Json)} {names : List String}
    (hnodup : names.Nodup) (hnames : fields.map (·.1) = names) :
    (ofFields fields).record? names = some ⟨false, fields⟩ :=
  record?_ofFields_of_perm hnodup (hnames ▸ .refl _)

end Json

end Courier
