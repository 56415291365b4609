import Courier.Proofs.Json.Literals

/-!
# Reading back a value

The reader takes one octet at a time, so what is shown of it is how far a run of octets takes it:
the text of a value, with an octet after it that ends a number, takes it from before the value to
after it (`Reads`).

* `Json.Proper`: the literals of a value are ones that the reader takes. What is built from texts
  and integers is proper.
* `reads_of_proper`: the text of a proper value is read. The induction is on the value; the items of an
  array and the members of an object are read one after the other into the frame on the stack.
* `read_render`: so the text of a proper value is read as that value.
-/

namespace Courier.Json

open Reader

/-! ## Literals -/

namespace Reader

/-- Where a run of octets takes a string, if it neither ends it nor is wrong in it. -/
def StringPart.goes (part : StringPart) : Octets → Option StringPart
  | [] => some part
  | b :: rest =>
    match part.step b with
    | .more part => goes part rest
    | .ends | .bad => none

/-- Where a run of octets takes a number. -/
def NumberPart.goes (part : NumberPart) : Octets → Option NumberPart
  | [] => some part
  | b :: rest => (part.next? b).bind (goes · rest)

/-- Where the first octet of a number takes the reader. -/
def NumberPart.first? (b : UInt8) : Option NumberPart :=
  if b == 0x2d then some .minus
  else if b == 0x30 then some .zero
  else if Decimal.isDigit b then some .integer
  else none

end Reader

/-- The octets can stand between quotes. -/
def Quotable (raw : Octets) : Prop :=
  StringPart.plain.goes raw = some .plain

/-- The octets are a number. -/
def Numeral (literal : Octets) : Prop :=
  ∃ b rest first last, literal = b :: rest ∧ NumberPart.first? b = some first ∧
    first.goes rest = some last ∧ last.complete = true

/-- The literals of a value are numbers and quotable. -/
inductive Proper : Json → Prop
  | null : Proper .null
  | bool (b : Bool) : Proper (.bool b)
  | number {literal : Octets} (h : Numeral literal) : Proper (.number literal)
  | string {raw : Octets} (h : Quotable raw) : Proper (.string raw)
  | array {items : List Json} (h : ∀ v ∈ items, Proper v) : Proper (.array items)
  | object {members : List (Octets × Json)} (hnames : ∀ m ∈ members, Quotable m.1)
      (h : ∀ m ∈ members, Proper m.2) : Proper (.object members)

namespace Reader

variable {stack : List Frame} {b : UInt8} {raw rest : Octets} {v : Json}

theorem StringPart.goes_append {part : StringPart} {more : Octets} :
    part.goes (raw ++ more) = (part.goes raw).bind (·.goes more) := by
  induction raw generalizing part with
  | nil => rfl
  | cons b raw ih =>
    simp only [List.cons_append, goes]
    cases part.step b with
    | more part => exact ih
    | ends => rfl
    | bad => rfl

theorem NumberPart.goes_digits {ds : Octets} (h : ds.all Decimal.isDigit = true) :
    NumberPart.integer.goes ds = some .integer := by
  induction ds with
  | nil => rfl
  | cons d ds ih =>
    rw [List.all_cons, Bool.and_eq_true] at h
    simp only [goes, next?, h.1, if_true, Option.bind_some]
    exact ih h.2

end Reader

/-! ## Literals as they are written -/

theorem goes_digits_of_pos {n : Nat} (h : 0 < n) :
    ∃ b rest, Decimal.digits n = b :: rest ∧ b ≠ 0x30 ∧ Decimal.isDigit b = true ∧
      NumberPart.integer.goes rest = some .integer := by
  obtain ⟨b, rest, heq, hb, hdigit⟩ := Decimal.digits_head h
  have hall := Decimal.all_isDigit_digits n
  rw [heq, List.all_cons, Bool.and_eq_true] at hall
  exact ⟨b, rest, heq, hb, hdigit, NumberPart.goes_digits hall.2⟩

theorem numeral_ofInt (n : Int) : Numeral (Decimal.ofInt n) := by
  unfold Decimal.ofInt
  split
  · next hn =>
    obtain ⟨b, rest, heq, hb, hdigit, hgoes⟩ := goes_digits_of_pos (n := n.natAbs) (by omega)
    refine ⟨0x2d, _, .minus, .integer, rfl, rfl, ?_, rfl⟩
    simp [heq, NumberPart.goes, NumberPart.next?, hb, hdigit, hgoes]
  · rcases Nat.eq_zero_or_pos n.natAbs with hzero | hpos
    · rw [hzero, Decimal.digits]
      exact ⟨0x30, [], .zero, .zero, rfl, rfl, rfl, rfl⟩
    · obtain ⟨b, rest, heq, hb, hdigit, hgoes⟩ := goes_digits_of_pos hpos
      have hminus : b ≠ 0x2d := fun h => absurd (h ▸ hdigit) (by decide)
      exact ⟨b, rest, .integer, .integer, heq, by simp [NumberPart.first?, hb, hminus, hdigit],
        hgoes, rfl⟩

/-- The reader takes an octet of a text as it is written between quotes. -/
theorem goes_escapeOctet (b : UInt8) : StringPart.plain.goes (escapeOctet b) = some .plain := by
  unfold escapeOctet
  split_ifs with hquote hslash hback htab hline hfeed hreturn hcontrol
  any_goals rfl
  · have hall : ∀ n < 32, isHexDigit (hexDigit (n / 16)) = true ∧
        isHexDigit (hexDigit (n % 16)) = true := by decide
    obtain ⟨hhigh, hlow⟩ := hall b.toNat (UInt8.lt_iff_toNat_lt.mp hcontrol)
    have hzero : isHexDigit 0x30 = true := rfl
    simp [StringPart.goes, StringPart.step, hzero, hhigh, hlow]
  · simp [StringPart.goes, StringPart.step, hquote, hslash, hcontrol]

theorem quotable_escape (s : String) : Quotable (escape s) := by
  unfold Quotable escape
  induction octetsOf s with
  | nil => rfl
  | cons b octets ih =>
    rw [List.flatMap_cons, StringPart.goes_append, goes_escapeOctet]
    exact ih

@[simp] theorem proper_ofText (s : String) : Proper (ofText s) :=
  .string (quotable_escape s)

@[simp] theorem proper_ofInt (n : Int) : Proper (ofInt n) :=
  .number (numeral_ofInt n)

@[simp] theorem proper_ofOctets (bs : Octets) : Proper (ofOctets bs) := by
  refine .array fun v hv => ?_
  obtain ⟨b, -, rfl⟩ := List.mem_map.mp hv
  exact proper_ofInt b.toNat

@[simp] theorem proper_ofOption {α : Type} {f : α → Json} (h : ∀ a, Proper (f a)) (o : Option α) :
    Proper (ofOption f o) := by
  cases o with
  | none => exact .null
  | some a => exact h a

theorem proper_ofFields {fields : List (String × Json)} (h : ∀ p ∈ fields, Proper p.2) :
    Proper (ofFields fields) := by
  refine .object (fun m hm => ?_) fun m hm => ?_ <;> obtain ⟨p, hp, rfl⟩ := List.mem_map.mp hm
  · exact quotable_escape p.1
  · exact h p hp

/-! ## What the reader makes of a text -/

namespace Reader

/-- An octet that follows a value and ends a number: a comma or a closing bracket. -/
def Ends (b : UInt8) : Prop :=
  b = 0x2c ∨ b = 0x5d ∨ b = 0x7d

theorem next?_of_ends (h : Ends b) (part : NumberPart) : part.next? b = none := by
  rcases h with rfl | rfl | rfl <;> cases part <;> rfl

/-- Octets of a string, or of a name, are kept as they come. -/
theorem foldl_part (mode : Octets → StringPart → Mode)
    (hmode : ∀ done part b next, part.step b = .more next →
      step ⟨stack, mode done part⟩ b = ⟨stack, mode (b :: done) next⟩)
    {part last : StringPart} (h : part.goes raw = some last) (done : Octets) :
    raw.foldl step ⟨stack, mode done part⟩ = ⟨stack, mode (raw.reverse ++ done) last⟩ := by
  induction raw generalizing part done with
  | nil =>
    cases h
    rfl
  | cons b raw ih =>
    unfold StringPart.goes at h
    split at h
    · next next heq => simp [hmode done part b next heq, ih h]
    · cases h
    · cases h

theorem foldl_string (h : Quotable raw) :
    (quoted raw ++ rest).foldl step ⟨stack, .value⟩ =
      rest.foldl step (deliver stack (.string raw)) := by
  have hmode (done part b next) (hb : StringPart.step part b = .more next) :
      step ⟨stack, .inString done part⟩ b = ⟨stack, .inString (b :: done) next⟩ := by
    unfold step stepPlain
    simp only [hb]
  have hopen : step ⟨stack, .value⟩ 0x22 = ⟨stack, .inString [] .plain⟩ := rfl
  have hclose (done : Octets) :
      step ⟨stack, .inString done .plain⟩ 0x22 = deliver stack (.string done.reverse) := rfl
  simp [quoted, hopen, foldl_part .inString hmode h, hclose]

theorem foldl_name {members : List (Octets × Json)} {mode : Mode} (h : Quotable raw)
    (hopen : ∀ stack, step ⟨stack, mode⟩ 0x22 = ⟨stack, .inName [] .plain⟩) :
    (quoted raw ++ rest).foldl step ⟨.object members none :: stack, mode⟩ =
      rest.foldl step ⟨.object members (some raw) :: stack, .colon⟩ := by
  have hmode (done part b next) (hb : StringPart.step part b = .more next) :
      step ⟨.object members none :: stack, .inName done part⟩ b =
        ⟨.object members none :: stack, .inName (b :: done) next⟩ := by
    unfold step stepPlain
    simp only [hb]
  have hclose (done : Octets) : step ⟨.object members none :: stack, .inName done .plain⟩ 0x22 =
      ⟨.object members (some done.reverse) :: stack, .colon⟩ := rfl
  simp [quoted, hopen, foldl_part .inName hmode h, hclose]

theorem foldl_inNumber {part last : NumberPart} (h : part.goes raw = some last) (done : Octets) :
    raw.foldl step ⟨stack, .inNumber done part⟩ = ⟨stack, .inNumber (raw.reverse ++ done) last⟩ := by
  induction raw generalizing part done with
  | nil =>
    cases h
    rfl
  | cons b raw ih =>
    unfold NumberPart.goes at h
    cases hb : part.next? b with
    | none => simp [hb] at h
    | some next =>
      rw [hb, Option.bind_some] at h
      have hstep : step ⟨stack, .inNumber done part⟩ b = ⟨stack, .inNumber (b :: done) next⟩ := by
        unfold step
        simp only [hb]
      simp [hstep, ih h]

theorem isBlank_first {first : NumberPart} (h : NumberPart.first? b = some first) :
    isBlank b = false ∧ b ≠ 0x22 ∧ b ≠ 0x5b ∧ b ≠ 0x5d ∧ b ≠ 0x7b := by
  have hne {c : UInt8} (hc : NumberPart.first? c = none) : b ≠ c := by
    rintro rfl
    rw [hc] at h
    cases h
  refine ⟨?_, hne rfl, hne rfl, hne rfl, hne rfl⟩
  simp [isBlank, hne (c := 0x20) rfl, hne (c := 0x09) rfl, hne (c := 0x0a) rfl,
    hne (c := 0x0d) rfl]

/-- The first octet of a number opens it. -/
theorem step_first {first : NumberPart} (h : NumberPart.first? b = some first) :
    step ⟨stack, .value⟩ b = ⟨stack, .inNumber [b] first⟩ := by
  obtain ⟨hblank, hquote, harray, -, hobject⟩ := isBlank_first h
  show (if isBlank b then _ else openValue stack b) = _
  unfold NumberPart.first? at h
  split_ifs at h with hminus hzero hdigit <;> cases h <;>
    simp [openValue, *]

/-- The reader after a value is not in a number. -/
theorem step_deliver (stack : List Frame) (v : Json) (b : UInt8) :
    step (deliver stack v) b = stepPlain (deliver stack v) b := by
  rcases stack with _ | ⟨items | ⟨members, _ | name⟩, outer⟩ <;> rfl

theorem foldl_number (h : Numeral raw) (hb : Ends b) :
    (raw ++ b :: rest).foldl step ⟨stack, .value⟩ =
      (b :: rest).foldl step (deliver stack (.number raw)) := by
  obtain ⟨c, digits, first, last, rfl, hfirst, hgoes, hcomplete⟩ := h
  have hstep : step ⟨stack, .inNumber (digits.reverse ++ [c]) last⟩ b =
      step (deliver stack (.number (c :: digits))) b := by
    rw [step_deliver]
    unfold step
    simp [next?_of_ends hb, hcomplete]
  rw [List.cons_append, List.foldl_cons, step_first hfirst, List.foldl_append,
    foldl_inNumber hgoes, List.foldl_cons, hstep, List.foldl_cons]

/-! ## What the reader makes of a value -/

/-- The text of a value takes the reader from before the value to after it. -/
def Reads (v : Json) : Prop :=
  ∀ stack b rest, Ends b → (render v ++ b :: rest).foldl step ⟨stack, .value⟩ =
    (b :: rest).foldl step (deliver stack v)

/-- The text of a value begins with an octet that is neither blank nor the end of an array. -/
theorem render_head (h : Proper v) :
    ∃ b rest, render v = b :: rest ∧ isBlank b = false ∧ b ≠ 0x5d := by
  cases h with
  | null => exact ⟨0x6e, _, rfl, rfl, by decide⟩
  | bool b => cases b <;> exact ⟨_, _, rfl, rfl, by decide⟩
  | number h =>
    obtain ⟨c, digits, first, last, rfl, hfirst, -⟩ := h
    obtain ⟨hblank, -, -, hend, -⟩ := isBlank_first hfirst
    exact ⟨c, digits, by rw [render], hblank, hend⟩
  | string h => exact ⟨0x22, _, by rw [render]; rfl, rfl, by decide⟩
  | array h => exact ⟨0x5b, _, by rw [render], rfl, by decide⟩
  | object hnames h => exact ⟨0x7b, _, by rw [render], rfl, by decide⟩

theorem renderMoreItems_head (items : List Json) :
    ∃ b rest, renderMoreItems items = b :: rest ∧ Ends b := by
  cases items with
  | nil => exact ⟨0x5d, [], rfl, .inr (.inl rfl)⟩
  | cons v items => exact ⟨0x2c, _, by rw [renderMoreItems], .inl rfl⟩

theorem renderMoreMembers_head (members : List (Octets × Json)) :
    ∃ b rest, renderMoreMembers members = b :: rest ∧ Ends b := by
  cases members with
  | nil => exact ⟨0x7d, [], rfl, .inr (.inr rfl)⟩
  | cons m members => exact ⟨0x2c, _, by rw [renderMoreMembers], .inl rfl⟩

/-- A value is read up to a text that begins with a comma or a closing bracket. -/
theorem Reads.foldl {more : Octets} (h : Reads v) (hmore : ∃ b rest, more = b :: rest ∧ Ends b) :
    (render v ++ (more ++ rest)).foldl step ⟨stack, .value⟩ =
      (more ++ rest).foldl step (deliver stack v) := by
  obtain ⟨b, rest', rfl, hb⟩ := hmore
  exact h stack b (rest' ++ rest) hb

theorem foldl_moreItems {items : List Json} (h : ∀ v ∈ items, Reads v) (done : List Json) :
    (renderMoreItems items ++ rest).foldl step ⟨.array done :: stack, .afterValue⟩ =
      rest.foldl step (deliver stack (.array (done.reverse ++ items))) := by
  induction items generalizing done with
  | nil =>
    have hclose : step ⟨.array done :: stack, .afterValue⟩ 0x5d =
      deliver stack (.array done.reverse) := rfl
    simp [renderMoreItems, hclose]
  | cons v items ih =>
    have hcomma : step ⟨.array done :: stack, .afterValue⟩ 0x2c = ⟨.array done :: stack, .value⟩ :=
      rfl
    have hrest := ih (fun v' hv' => h v' (.tail _ hv')) (v :: done)
    rw [List.reverse_cons, List.append_assoc, List.singleton_append] at hrest
    rw [renderMoreItems, List.cons_append, List.foldl_cons, hcomma, List.append_assoc,
      (h v (.head _)).foldl (renderMoreItems_head items)]
    exact hrest

theorem foldl_moreMembers {members : List (Octets × Json)} (hnames : ∀ m ∈ members, Quotable m.1)
    (h : ∀ m ∈ members, Reads m.2) (done : List (Octets × Json)) :
    (renderMoreMembers members ++ rest).foldl step ⟨.object done none :: stack, .afterValue⟩ =
      rest.foldl step (deliver stack (.object (done.reverse ++ members))) := by
  induction members generalizing done with
  | nil =>
    have hclose : step ⟨.object done none :: stack, .afterValue⟩ 0x7d =
      deliver stack (.object done.reverse) := rfl
    simp [renderMoreMembers, hclose]
  | cons m members ih =>
    obtain ⟨name, v⟩ := m
    have hcomma : step ⟨.object done none :: stack, .afterValue⟩ 0x2c =
      ⟨.object done none :: stack, .name⟩ := rfl
    have hcolon : step ⟨.object done (some name) :: stack, .colon⟩ 0x3a =
      ⟨.object done (some name) :: stack, .value⟩ := rfl
    have hrest := ih (fun m hm => hnames m (.tail _ hm)) (fun m hm => h m (.tail _ hm))
      ((name, v) :: done)
    rw [List.reverse_cons, List.append_assoc, List.singleton_append] at hrest
    rw [renderMoreMembers, List.cons_append, List.foldl_cons, hcomma, List.append_assoc,
      foldl_name (hnames _ (.head _)) fun _ => rfl, List.cons_append, List.foldl_cons, hcolon,
      List.append_assoc, (h _ (.head _)).foldl (renderMoreMembers_head members)]
    exact hrest

/-- The first item of an array is read as any other. -/
theorem foldl_firstItem (h : Proper v) {more : Octets} :
    (render v ++ more).foldl step ⟨stack, .firstItem⟩ =
      (render v ++ more).foldl step ⟨stack, .value⟩ := by
  obtain ⟨b, rest, heq, hblank, hend⟩ := render_head h
  have hstep : step ⟨stack, .firstItem⟩ b = step ⟨stack, .value⟩ b := by
    show (if isBlank b then _ else if b == 0x5d then close stack b else openValue stack b) =
      if isBlank b then _ else openValue stack b
    simp [hblank, hend]
  rw [heq, List.cons_append, List.foldl_cons, List.foldl_cons, hstep]

theorem foldl_array {items : List Json} (hproper : ∀ v ∈ items, Proper v)
    (h : ∀ v ∈ items, Reads v) :
    (render (.array items) ++ rest).foldl step ⟨stack, .value⟩ =
      rest.foldl step (deliver stack (.array items)) := by
  have hopen : step ⟨stack, .value⟩ 0x5b = ⟨.array [] :: stack, .firstItem⟩ := rfl
  rw [render, List.cons_append, List.foldl_cons, hopen]
  cases items with
  | nil =>
    have hclose : step ⟨.array [] :: stack, .firstItem⟩ 0x5d = deliver stack (.array []) := rfl
    rw [renderItems, List.cons_append, List.foldl_cons, hclose, List.nil_append]
  | cons v items =>
    rw [renderItems, List.append_assoc, foldl_firstItem (hproper v (.head _)),
      (h v (.head _)).foldl (renderMoreItems_head items)]
    exact foldl_moreItems (fun v' hv' => h v' (.tail _ hv')) [v]

theorem foldl_object {members : List (Octets × Json)} (hnames : ∀ m ∈ members, Quotable m.1)
    (h : ∀ m ∈ members, Reads m.2) :
    (render (.object members) ++ rest).foldl step ⟨stack, .value⟩ =
      rest.foldl step (deliver stack (.object members)) := by
  have hopen : step ⟨stack, .value⟩ 0x7b = ⟨.object [] none :: stack, .firstName⟩ := rfl
  rw [render, List.cons_append, List.foldl_cons, hopen]
  cases members with
  | nil =>
    have hclose : step ⟨.object [] none :: stack, .firstName⟩ 0x7d = deliver stack (.object []) :=
      rfl
    rw [renderMembers, List.cons_append, List.foldl_cons, hclose, List.nil_append]
  | cons m members =>
    obtain ⟨name, v⟩ := m
    have hcolon : step ⟨.object [] (some name) :: stack, .colon⟩ 0x3a =
      ⟨.object [] (some name) :: stack, .value⟩ := rfl
    rw [renderMembers, List.append_assoc, foldl_name (hnames _ (.head _)) fun _ => rfl,
      List.cons_append, List.foldl_cons, hcolon, List.append_assoc,
      (h _ (.head _)).foldl (renderMoreMembers_head members)]
    exact foldl_moreMembers (fun m hm => hnames m (.tail _ hm)) (fun m hm => h m (.tail _ hm))
      [(name, v)]

theorem reads_of_proper (h : Proper v) : Reads v := by
  induction h with
  | null => exact fun stack b rest _ => rfl
  | bool b => cases b <;> exact fun stack b rest _ => rfl
  | number h =>
    intro stack b rest hb
    rw [render]
    exact foldl_number h hb
  | string h =>
    intro stack b rest _
    rw [render]
    exact foldl_string h
  | array hproper ih => exact fun stack b rest _ => foldl_array hproper ih
  | object hnames _ ih => exact fun stack b rest _ => foldl_object hnames ih

end Reader

/-- The text of a value is read as that value. -/
theorem read_render (h : Proper v) : read (render v) = some v := by
  have hread (hfold : (render v ++ []).foldl step ⟨[], .value⟩ = deliver [] v) :
      read (render v) = some v := by
    rw [List.append_nil] at hfold
    unfold read start
    rw [hfold]
    rfl
  cases h with
  | null => rfl
  | bool b => cases b <;> rfl
  | number h =>
    -- no octet follows that would end the number
    obtain ⟨b, digits, first, last, rfl, hfirst, hgoes, hcomplete⟩ := h
    unfold read start
    rw [render, List.foldl_cons, step_first hfirst, foldl_inNumber hgoes]
    simp [finish, hcomplete]
  | string h =>
    refine hread ?_
    rw [render]
    exact foldl_string h
  | array h => exact hread (foldl_array h fun v hv => reads_of_proper (h v hv))
  | object hnames h => exact hread (foldl_object hnames fun m hm => reads_of_proper (h m hm))

end Courier.Json
