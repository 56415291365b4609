import Courier.Toml.Quoted
import Mathlib.Tactic.SplitIfs

/-!
# Reading back a quoted text

Whatever form a text is written in, the scanner takes it for the text (`foldl_quoted`). Inside of a
text the scanner has some characters and, in a long one, up to two marks after them that may still
turn out to belong to the text or to close it (`Scanner.reading`).

* `yields_escapeText`: a text with escapes is read, whatever it holds.
* `Quoting.Bare.yields`: a text without escapes is read if its characters can stand as they are and
  its own mark does not come too often in a row.
* `bare_of_literal`: the form that is chosen takes care of that.
-/

namespace Courier.Toml

open Scanner

namespace Scanner

/-- The scanner in a text, after the characters `done`, latest first, and some marks. -/
def reading (m : Mark) (long : Bool) (done : List Char) (marks : Nat) (out : List Symbol) : State :=
  if marks = 0 then ⟨.inside ⟨m, long, done⟩, out⟩ else ⟨.closing ⟨m, long, done⟩ marks, out⟩

variable {m : Mark} {long : Bool} {done : List Char} {marks : Nat} {out : List Symbol} {c : Char}

/-- Any other character shows that the marks belong to the text. -/
theorem step_reading (hc : c ≠ m.char) (hmarks : marks ≤ 2) :
    step (reading m long done marks out) c =
      stepInside ⟨m, long, List.replicate marks m.char ++ done⟩ out c := by
  unfold reading
  split
  · next h =>
    subst h
    rfl
  · show stepClosing _ _ _ _ = _
    unfold stepClosing
    rw [if_neg hc, if_pos (by omega)]
    rfl

/-- One more mark, where a long text may still go on after it. -/
theorem step_reading_mark (hmarks : marks < 5) :
    step (reading m true done marks out) m.char = reading m true done (marks + 1) out := by
  unfold reading
  rw [if_neg (Nat.succ_ne_zero marks)]
  split
  · next h =>
    subst h
    show stepInside _ _ _ = _
    unfold stepInside
    rw [if_pos rfl, if_pos rfl]
  · show stepClosing _ _ _ _ = _
    unfold stepClosing
    rw [if_pos rfl, if_pos hmarks]

/-- A character that stands for itself. -/
theorem step_reading_bare (hmark : c ≠ m.char) (hslash : c = '\\' → m ≠ .quote)
    (hc : isPlain c = true ∨ (c = '\n' ∧ long = true)) (hmarks : marks ≤ 2) :
    step (reading m long done marks out) c =
      reading m long (c :: (List.replicate marks m.char ++ done)) 0 out := by
  rw [step_reading hmark hmarks]
  unfold stepInside
  rw [if_neg hmark, if_neg fun h => hslash h.1 h.2]
  split
  · next hline =>
    rcases hc with hc | ⟨-, hlong⟩
    · subst hline
      exact absurd hc (by decide)
    · rw [if_pos hlong]
      rfl
  · next hline =>
    rw [if_pos (hc.resolve_right fun h => hline h.1)]
    rfl

/-- A backslash begins an escape. -/
theorem step_reading_slash (hmarks : marks ≤ 2) :
    step (reading .quote long done marks out) '\\' =
      ⟨.escape ⟨.quote, long, List.replicate marks '"' ++ done⟩, out⟩ := by
  rw [step_reading (by decide) hmarks]
  unfold stepInside
  rw [if_neg (show '\\' ≠ Mark.quote.char by decide), if_pos ⟨rfl, rfl⟩]
  rfl

end Scanner

/-! ## Character by character -/

section Written

variable {q : Quoting} {out : List Symbol} {marks : Nat}

theorem Quoting.bareQuotes_le (q : Quoting) : q.bareQuotes ≤ 2 := by
  cases q <;> decide

theorem Quoting.long_of_lt_bareQuotes (h : marks < q.bareQuotes) : q.long = true := by
  cases q with
  | basic | literal => exact absurd h (Nat.not_lt_zero marks)
  | longBasic | longLiteral => rfl

/-- At the start of a text the scanner takes the characters `cs` for `text`, with some marks at the
end of it still pending. -/
def Quoting.Yields (q : Quoting) (cs text : List Char) (out : List Symbol) : Prop :=
  ∃ marks done, marks ≤ q.bareQuotes ∧ List.replicate marks q.mark.char ++ done = text.reverse ∧
    cs.foldl step (reading q.mark q.long [] 0 out) = reading q.mark q.long done marks out

/-- A text is read if its characters are, one after the other: each is one more mark that is left
pending, or is read together with the marks in front of it. -/
theorem yields_written (write : Nat → List Char → List Char) (Holds : Nat → List Char → Prop)
    (hnil : ∀ marks, write marks [] = [])
    (hcons : ∀ marks c text, marks ≤ q.bareQuotes → Holds marks (c :: text) →
      (c = q.mark.char ∧ marks < q.bareQuotes ∧ Holds (marks + 1) text ∧
        write marks (c :: text) = q.mark.char :: write (marks + 1) text) ∨
      ∃ part, Holds 0 text ∧ write marks (c :: text) = part ++ write 0 text ∧
        ∀ done, part.foldl step (reading q.mark q.long done marks out) =
          reading q.mark q.long (c :: (List.replicate marks q.mark.char ++ done)) 0 out)
    {text : List Char} (htext : Holds 0 text) : q.Yields (write 0 text) text out := by
  have htwo := q.bareQuotes_le
  have hall : ∀ marks done, marks ≤ q.bareQuotes → Holds marks text →
      ∃ marks' done', marks' ≤ q.bareQuotes ∧
        List.replicate marks' q.mark.char ++ done' =
          text.reverse ++ (List.replicate marks q.mark.char ++ done) ∧
        (write marks text).foldl step (reading q.mark q.long done marks out) =
          reading q.mark q.long done' marks' out := by
    clear htext
    induction text with
    | nil => exact fun marks done h _ => ⟨marks, done, h, rfl, by rw [hnil]; rfl⟩
    | cons c text ih =>
      intro marks done hmarks hholds
      rcases hcons marks c text hmarks hholds with ⟨rfl, hlt, hrest, hwrite⟩ |
        ⟨part, hrest, hwrite, hpart⟩
      · obtain ⟨marks', done', hle, htext, hfold⟩ := ih (marks + 1) done hlt hrest
        refine ⟨marks', done', hle, by rw [htext, List.replicate_succ]; simp, ?_⟩
        rw [Quoting.long_of_lt_bareQuotes hlt] at hfold ⊢
        rw [hwrite, List.foldl_cons, step_reading_mark (by omega), hfold]
      · obtain ⟨marks', done', hle, htext, hfold⟩ :=
          ih 0 (c :: (List.replicate marks q.mark.char ++ done)) (Nat.zero_le _) hrest
        refine ⟨marks', done', hle, by rw [htext]; simp, ?_⟩
        rw [hwrite, List.foldl_append, hpart, hfold]
  obtain ⟨marks, done, hle, heq, hfold⟩ := hall 0 [] (Nat.zero_le _) htext
  exact ⟨marks, done, hle, heq.trans (by simp), hfold⟩

end Written

/-! ## Escapes -/

/-- The digits of an escaped control character are read back. -/
theorem hexValue?_hexDigit {n : Nat} (h : n < 16) : hexValue? (hexDigit n) = some n := by
  have hall : ∀ n < 16, hexValue? (hexDigit n) = some n := by decide
  exact hall n h

/-- An escape by number stands for its character. -/
theorem foldl_coded {q : Quoted} {out : List Symbol} {n : Nat} (h : n < 128) :
    ['u', '0', '0', hexDigit (n / 16), hexDigit (n % 16)].foldl step ⟨.escape q, out⟩ =
      ⟨.inside (q.push (Char.ofNat n)), out⟩ := by
  have hhigh := hexValue?_hexDigit (n := n / 16) (by omega)
  have hlow := hexValue?_hexDigit (n := n % 16) (by omega)
  have hzero : hexValue? '0' = some 0 := by decide
  have hchar : charOf? (16 * (n / 16) + n % 16) = some (Char.ofNat n) := by
    unfold charOf?
    rw [Nat.div_add_mod, if_pos (.inl (by omega))]
  show step (step (step (step ⟨.digits q 4 0, out⟩ '0') '0') _) _ = _
  simp [step, stepDigits, hzero, hhigh, hlow, hchar]

/-- Only control characters cannot stand as they are. -/
theorem toNat_lt_of_not_isPlain {c : Char} (h : isPlain c = false) : c.toNat < 128 := by
  simp only [isPlain, Bool.or_eq_false_iff, Bool.and_eq_false_iff, decide_eq_false_iff_not, bne,
    Bool.not_eq_false', beq_iff_eq] at h
  omega

section Escapes

variable {long : Bool} {q : Quoting} {marks : Nat} {done : List Char} {out : List Symbol} {c : Char}

/-- A character is read back as it was written where escapes are taken. -/
theorem foldl_escapeChar (hmarks : marks ≤ 2) (hc : c ≠ '"') :
    (escapeChar long c).foldl step (reading .quote long done marks out) =
      reading .quote long (c :: (List.replicate marks '"' ++ done)) 0 out := by
  have hslash (rest : List Char) :
      ('\\' :: rest).foldl step (reading .quote long done marks out) =
        rest.foldl step ⟨.escape ⟨.quote, long, List.replicate marks '"' ++ done⟩, out⟩ := by
    rw [List.foldl_cons, step_reading_slash hmarks]
  unfold escapeChar
  split_ifs with hback htab hline hlong hfeed hreturn hbackslash hplain
  case pos => subst hback; exact hslash _
  case pos => subst htab; exact hslash _
  case pos =>
    subst hline
    exact step_reading_bare (m := .quote) hc (fun _ => absurd · (by decide)) (.inr ⟨rfl, hlong⟩)
      hmarks
  case neg => subst hline; exact hslash _
  case pos => subst hfeed; exact hslash _
  case pos => subst hreturn; exact hslash _
  case pos => subst hbackslash; exact hslash _
  case pos =>
    exact step_reading_bare (m := .quote) hc (fun h => absurd h hbackslash) (.inl hplain) hmarks
  · rw [hslash, foldl_coded (toNat_lt_of_not_isPlain (by simpa using hplain)), Char.ofNat_toNat]
    rfl

/-- A text with escapes is read. -/
theorem yields_escapeText (hq : q.mark = .quote) (out : List Symbol) (text : List Char) :
    q.Yields (escapeText q 0 text) text out := by
  refine yields_written (escapeText q) (fun _ _ => True) (fun _ => rfl) ?_ trivial
  intro marks c text hmarks _
  have htwo := q.bareQuotes_le
  rw [hq, escapeText]
  by_cases hc : c = '"'
  · rw [if_pos hc]
    by_cases hlt : marks < q.bareQuotes
    · exact .inl ⟨hc, hlt, trivial, if_pos hlt⟩
    · refine .inr ⟨['\\', '"'], trivial, if_neg hlt, fun done => ?_⟩
      rw [List.foldl_cons, step_reading_slash (by omega), hc]
      rfl
  · rw [if_neg hc]
    exact .inr ⟨escapeChar q.long c, trivial, rfl, fun _ => foldl_escapeChar (by omega) hc⟩

end Escapes

/-! ## Texts without escapes -/

section Bare

variable {q : Quoting} {out : List Symbol} {text : List Char}

/-- A text that a form without escapes can hold. -/
structure Quoting.Bare (q : Quoting) (text : List Char) : Prop where
  plain : ∀ c ∈ text, isPlain c = true ∨ (c = '\n' ∧ q.long = true)
  runs : Quoting.hasRun q.mark.char (q.bareQuotes + 1) text = false

theorem hasRun_of_append {c : Char} {n : Nat} {before after : List Char}
    (h : Quoting.hasRun c n (before ++ after) = false) : Quoting.hasRun c n after = false := by
  induction before with
  | nil => exact h
  | cons d before ih =>
    rw [List.cons_append, Quoting.hasRun, Bool.or_eq_false_iff] at h
    exact ih h.2

theorem hasRun_replicate_append {c : Char} {n : Nat} {after : List Char} (hn : 0 < n) :
    Quoting.hasRun c n (List.replicate n c ++ after) = true := by
  obtain ⟨k, rfl⟩ := Nat.exists_eq_succ_of_ne_zero (by omega : n ≠ 0)
  have hprefix : List.replicate (k + 1) c <+: c :: (List.replicate k c ++ after) :=
    ⟨after, by rw [List.replicate_succ, List.cons_append]⟩
  rw [List.replicate_succ, List.cons_append, Quoting.hasRun,
    List.isPrefixOf_iff_prefix.mpr hprefix, Bool.true_or]

/-- A text without escapes is read. -/
theorem Quoting.Bare.yields (hbare : q.Bare text) (hq : q.mark ≠ .quote) (out : List Symbol) :
    q.Yields text text out := by
  refine yields_written (fun _ text => text)
    (fun marks text => q.Bare (List.replicate marks q.mark.char ++ text)) (fun _ => rfl) ?_ hbare
  intro marks c text hmarks hbare
  have htwo := q.bareQuotes_le
  by_cases hc : c = q.mark.char
  · subst hc
    have hrun : List.replicate marks q.mark.char ++ q.mark.char :: text =
        List.replicate (marks + 1) q.mark.char ++ text := by
      rw [List.replicate_succ', List.append_assoc]
      rfl
    rw [hrun] at hbare
    -- with one mark more than the form allows, the text would have a run
    have hlt : marks < q.bareQuotes := by
      refine Nat.lt_of_le_of_ne hmarks fun heq => ?_
      have hrun := hbare.runs
      rw [heq, hasRun_replicate_append (by omega)] at hrun
      cases hrun
    exact .inl ⟨rfl, hlt, hbare, rfl⟩
  · have hplain := hbare.plain c (List.mem_append_right _ (.head _))
    have hlast : Quoting.hasRun q.mark.char (q.bareQuotes + 1) ([c] ++ text) = false :=
      hasRun_of_append hbare.runs
    refine .inr ⟨[c], ⟨fun d hd => hbare.plain d (List.mem_append_right _ (.tail _ hd)),
      hasRun_of_append hlast⟩, rfl, fun done => ?_⟩
    exact step_reading_bare hc (fun _ => hq) hplain (by omega)

theorem hasRun_one {c : Char} (h : text.contains c = false) : Quoting.hasRun c 1 text = false := by
  induction text with
  | nil => rfl
  | cons d text ih =>
    rw [List.contains_cons, Bool.or_eq_false_iff] at h
    rw [Quoting.hasRun, ih h.2, Bool.or_false]
    simpa [List.isPrefixOf] using h.1

theorem isPlain_of_not_coded {c : Char} (h : text.any Quoting.isCoded = false) (hc : c ∈ text) :
    isPlain c = true ∨ c = '\n' := by
  have := List.any_eq_false.mp h c hc
  simp only [Quoting.isCoded, Bool.and_eq_true, Bool.not_eq_true', bne_iff_ne, not_and,
    Decidable.not_not] at this
  cases hplain : isPlain c with
  | true => exact .inl rfl
  | false => exact .inr (this hplain)

/-- A text is written without escapes only if it needs none. -/
theorem bare_of_literal (h : (Quoting.of text).mark ≠ .quote) : (Quoting.of text).Bare text := by
  have hcases : Quoting.of text = .literal ∧ text.any Quoting.isCoded = false ∧
      text.contains '\n' = false ∧ text.contains '\'' = false ∨
      Quoting.of text = .longLiteral ∧ text.any Quoting.isCoded = false ∧
        Quoting.hasRun '\'' 3 text = false := by
    revert h
    unfold Quoting.of
    dsimp only
    split_ifs with hbasic hliteral hlongBasic hlongLiteral <;> intro h
    case pos => exact absurd rfl h
    case pos =>
      simp only [Bool.and_eq_true, Bool.not_eq_true'] at hliteral
      exact .inl ⟨rfl, hliteral.1.1, hliteral.1.2, hliteral.2⟩
    case pos => exact absurd rfl h
    case pos =>
      simp only [Bool.and_eq_true, Bool.not_eq_true'] at hlongLiteral
      exact .inr ⟨rfl, hlongLiteral⟩
    all_goals exact absurd rfl h
  rcases hcases with ⟨hq, hcoded, hlines, hmarks⟩ | ⟨hq, hcoded, hruns⟩
  · rw [hq]
    refine ⟨fun c hc => .inl ?_, hasRun_one hmarks⟩
    refine (isPlain_of_not_coded hcoded hc).resolve_right fun hline => ?_
    rw [← hline, List.contains_iff_mem.mpr hc] at hlines
    cases hlines
  · rw [hq]
    exact ⟨fun c hc => (isPlain_of_not_coded hcoded hc).imp_right fun hline => ⟨hline, rfl⟩, hruns⟩

end Bare

/-! ## Delimiters -/

section Delimiters

variable {q : Quoting} {out : List Symbol} {text : List Char} {marks : Nat} {done : List Char}

/-- The delimiter ends the text; the marks in front of it belong to the text. -/
theorem foldl_closing (hmarks : marks ≤ q.bareQuotes) :
    (q.delimiter ++ ['\n']).foldl step (reading q.mark q.long done marks out) =
      ⟨.outside, .newline ::
        .text (.ofList (List.replicate marks q.mark.char ++ done).reverse) q.long :: out⟩ := by
  have htwo := q.bareQuotes_le
  unfold Quoting.delimiter
  cases hlong : q.long with
  | false =>
    obtain rfl : marks = 0 := by
      rcases Nat.eq_zero_or_pos marks with h | h
      · exact h
      · rw [Quoting.long_of_lt_bareQuotes (Nat.lt_of_lt_of_le h hmarks)] at hlong
        cases hlong
    rw [if_neg (by decide)]
    show step (stepInside _ _ _) _ = _
    unfold stepInside
    rw [if_pos rfl, if_neg Bool.false_ne_true]
    rfl
  | true =>
    rw [if_pos rfl]
    show step (step (step (step _ q.mark.char) q.mark.char) q.mark.char) '\n' = _
    rw [step_reading_mark (by omega), step_reading_mark (by omega), step_reading_mark (by omega)]
    show stepClosing _ _ _ _ = _
    unfold stepClosing
    rw [if_neg (show '\n' ≠ q.mark.char by cases q <;> decide), if_neg (by omega)]
    rfl

/-- After the opening of a text the scanner is in the text, unless what follows would still belong
to the opening. -/
theorem foldl_opening {c : Char} {rest : List Char} (hshort : q.long = false → c ≠ q.mark.char)
    (hline : text.contains '\n' = false → c ≠ '\n') :
    (q.delimiter ++ ((if q.long && text.contains '\n' then ['\n'] else []) ++ c :: rest)).foldl step
        ⟨.outside, out⟩ =
      (c :: rest).foldl step (reading q.mark q.long [] 0 out) := by
  have hopen : step ⟨.outside, out⟩ q.mark.char = ⟨.opened q.mark, out⟩ := by
    cases q <;> rfl
  unfold Quoting.delimiter
  cases hlong : q.long with
  | false =>
    rw [if_neg (by decide), Bool.false_and, if_neg (by decide)]
    show rest.foldl step (step (step ⟨.outside, out⟩ q.mark.char) c) = _
    rw [hopen]
    show rest.foldl step (if c = q.mark.char then _ else _) = _
    rw [if_neg (hshort hlong)]
    rfl
  | true =>
    rw [if_pos rfl, Bool.true_and]
    have hopened : (List.replicate 3 q.mark.char).foldl step ⟨.outside, out⟩ =
        ⟨.openedLong q.mark, out⟩ := by
      cases q <;> rfl
    rw [List.foldl_append, hopened]
    cases hlines : text.contains '\n' with
    | true => rfl
    | false =>
      rw [if_neg (by decide), List.nil_append, List.foldl_cons, List.foldl_cons]
      show rest.foldl step (if c = '\n' then _ else _) = _
      rw [if_neg (hline hlines)]
      rfl

end Delimiters

/-! ## A text with its quotes -/

theorem escapeChar_head (long : Bool) (c : Char) :
    ∃ d rest, escapeChar long c = d :: rest ∧ (c ≠ '"' → d ≠ '"') ∧ (c ≠ '\n' → d ≠ '\n') := by
  have hslash (rest : List Char) : ∃ d rest', '\\' :: rest = d :: rest' ∧ (c ≠ '"' → d ≠ '"') ∧
      (c ≠ '\n' → d ≠ '\n') :=
    ⟨'\\', rest, rfl, fun _ => by decide, fun _ => by decide⟩
  unfold escapeChar
  split_ifs with hback htab hline hlong
  case pos => exact hslash _
  case pos => exact hslash _
  case pos => exact ⟨'\n', [], rfl, fun _ => by decide, fun h => absurd hline h⟩
  case neg => exact hslash _
  case pos => exact hslash _
  case pos => exact hslash _
  case pos => exact hslash _
  case pos => exact ⟨c, [], rfl, id, id⟩
  case neg => exact hslash _

theorem escapeText_head (q : Quoting) (c : Char) (text : List Char) :
    ∃ d rest, escapeText q 0 (c :: text) = d :: rest ∧ (q.long = false → d ≠ '"') ∧
      (c ≠ '\n' → d ≠ '\n') := by
  unfold escapeText
  by_cases hc : c = '"'
  · rw [if_pos hc]
    split
    · next hlt =>
      exact ⟨_, _, rfl, fun h => absurd (Quoting.long_of_lt_bareQuotes hlt) (by simp [h]),
        fun _ => by decide⟩
    · exact ⟨_, _, rfl, fun _ => by decide, fun _ => by decide⟩
  · rw [if_neg hc]
    obtain ⟨d, rest, heq, hquote, hline⟩ := escapeChar_head q.long c
    exact ⟨d, rest ++ escapeText q 0 text, by rw [heq]; rfl, fun _ => hquote hc, hline⟩

/-- What stands between the delimiters of a text, after the newline of a long opening. -/
def Quoting.contents (q : Quoting) (text : List Char) : List Char :=
  if q.mark = .quote then escapeText q 0 text else text

/-- The form that is chosen for a text is read as the text. -/
theorem yields_contents (text : List Char) (out : List Symbol) :
    (Quoting.of text).Yields ((Quoting.of text).contents text) text out := by
  unfold Quoting.contents
  by_cases hmark : (Quoting.of text).mark = .quote
  · rw [if_pos hmark]
    exact yields_escapeText hmark out text
  · rw [if_neg hmark]
    exact (bare_of_literal hmark).yields hmark out

/-- No text begins with what would still belong to its opening. -/
theorem contents_head {q : Quoting} {c : Char} {text : List Char}
    (hbare : q.mark ≠ .quote → q.Bare (c :: text)) :
    ∃ d rest, q.contents (c :: text) = d :: rest ∧ (q.long = false → d ≠ q.mark.char) ∧
      (c ≠ '\n' → d ≠ '\n') := by
  unfold Quoting.contents
  by_cases hmark : q.mark = .quote
  · rw [if_pos hmark, hmark]
    exact escapeText_head q c text
  · rw [if_neg hmark]
    refine ⟨c, text, rfl, fun hlong hc => ?_, id⟩
    have hzero : q.bareQuotes = 0 := by
      unfold Quoting.bareQuotes
      rw [hlong]
      rfl
    have hrun := (hbare hmark).runs
    rw [hzero, hc] at hrun
    exact absurd (hasRun_replicate_append (n := 1) (by decide)) (by simpa using hrun)

/-- What a text is written as is read back as that text. The newline shows that it has ended. -/
theorem foldl_quoted (text : List Char) (out : List Symbol) :
    (quoted text ++ ['\n']).foldl step ⟨.outside, out⟩ =
      ⟨.outside, .newline :: .text (String.ofList text) (Quoting.of text).long :: out⟩ := by
  cases text with
  | nil => rfl
  | cons c text =>
    obtain ⟨d, rest, hcontents, hshort, hline⟩ :=
      contents_head (q := .of (c :: text)) bare_of_literal
    obtain ⟨marks, done, hle, htext, hfold⟩ := yields_contents (c :: text) out
    have hlines : (c :: text).contains '\n' = false → d ≠ '\n' := fun h =>
      hline fun hc => by simp [hc] at h
    have hbody : (Quoting.of (c :: text)).body (c :: text) =
        (if (Quoting.of (c :: text)).long && (c :: text).contains '\n' then ['\n'] else []) ++
          d :: rest := by
      rw [← hcontents]
      rfl
    rw [hcontents] at hfold
    unfold quoted
    dsimp only
    rw [hbody, List.append_assoc, List.foldl_append, foldl_opening hshort hlines, hfold,
      foldl_closing hle, htext, List.reverse_reverse]

/-! ## Carriage returns -/

theorem not_mem_escapeChar {long : Bool} {c : Char} : '\r' ∉ escapeChar long c := by
  have hdigit (n : Nat) (h : n < 16) : '\r' ≠ hexDigit n := by
    have hall : ∀ n < 16, '\r' ≠ hexDigit n := by decide
    exact hall n h
  unfold escapeChar
  split_ifs with hback htab hline hlong hfeed hreturn hbackslash hplain
  case pos => decide
  case pos => decide
  case pos => decide
  case neg => decide
  case pos => decide
  case pos => decide
  case pos => decide
  case pos => exact fun hmem => hreturn (List.mem_singleton.mp hmem).symm
  case neg =>
    have hlt := toNat_lt_of_not_isPlain (by simpa using hplain)
    simp [hdigit (c.toNat / 16) (by omega), hdigit (c.toNat % 16) (by omega)]

theorem not_mem_escapeText {q : Quoting} (text : List Char) :
    ∀ quotes, '\r' ∉ escapeText q quotes text := by
  induction text with
  | nil => exact fun _ => List.not_mem_nil
  | cons c text ih =>
    intro quotes
    unfold escapeText
    split_ifs
    · simp [ih]
    · simp [ih]
    · simp [ih, not_mem_escapeChar]

/-- A carriage return only stands in a text as an escape. -/
theorem not_mem_quoted (text : List Char) : '\r' ∉ quoted text := by
  have hcontents : '\r' ∉ (Quoting.of text).contents text := by
    unfold Quoting.contents
    split
    · exact not_mem_escapeText text 0
    · next hmark =>
      intro hmem
      rcases (bare_of_literal hmark).plain _ hmem with h | ⟨h, -⟩
      · exact absurd h (by decide)
      · exact absurd h (by decide)
  have hmark : '\r' ≠ (Quoting.of text).mark.char := by
    cases (Quoting.of text).mark <;> decide
  unfold quoted Quoting.delimiter Quoting.body
  simp only [List.mem_append, List.mem_replicate, not_or]
  refine ⟨⟨fun h => hmark h.2, ?_, hcontents⟩, fun h => hmark h.2⟩
  split <;> simp

end Courier.Toml
