import Courier.Proofs.Toml.Digits
import Courier.Proofs.Toml.Quoting
import Courier.Toml.Document

/-!
# Reading lines

A document that consists of headers and settings, each on a line of its own, is read line by line.
`Lines` says of a part of a text that it consists of whole lines and which statements they are; it
goes along concatenation (`Lines.append`), so that a text is put together from its lines.

* `Scans`, `Reads`: what each of the two passes makes of a part of a document, whatever stands
  before it.
* `Lines.header`, `Lines.text`, `Lines.integer`, `Lines.empty`: the lines that there are.
* `read_of_lines`: the document is what its statements make.
-/

namespace Courier.Toml

/-! ## From characters to symbols -/

/-- A part of a text that stands between texts and comments, and the symbols of it. -/
structure Scans (cs : List Char) (symbols : List Symbol) : Prop where
  noReturn : '\r' ∉ cs
  scan : ∀ out, cs.foldl Scanner.step ⟨.outside, out⟩ = ⟨.outside, symbols.reverse ++ out⟩

/-- A character that is its own symbol wherever it stands between texts and comments. -/
def isOrdinary (c : Char) : Bool :=
  c != '#' && c != '\n' && c != '"' && c != '\'' && c != '\r'

theorem isOrdinary_iff {c : Char} : isOrdinary c = true ↔
    c ≠ '#' ∧ c ≠ '\n' ∧ c ≠ '"' ∧ c ≠ '\'' ∧ c ≠ '\r' := by
  simp only [isOrdinary, Bool.and_eq_true, bne_iff_ne, and_assoc]

namespace Scans

variable {cs cs' : List Char} {symbols symbols' : List Symbol}

theorem append (h : Scans cs symbols) (h' : Scans cs' symbols') :
    Scans (cs ++ cs') (symbols ++ symbols') where
  noReturn hmem := (List.mem_append.mp hmem).elim h.noReturn h'.noReturn
  scan out := by
    rw [List.foldl_append, h.scan, h'.scan, List.reverse_append, List.append_assoc]

theorem newline : Scans ['\n'] [.newline] :=
  ⟨by decide, fun _ => rfl⟩

theorem chars (h : cs.all isOrdinary = true) : Scans cs (cs.map .char) where
  noReturn hmem := absurd (List.all_eq_true.mp h _ hmem) (by decide)
  scan out := by
    induction cs generalizing out with
    | nil => rfl
    | cons c cs ih =>
      rw [List.all_cons, Bool.and_eq_true] at h
      have hc := isOrdinary_iff.mp h.1
      have hstep : Scanner.step ⟨.outside, out⟩ c = ⟨.outside, .char c :: out⟩ := by
        show Scanner.stepOutside out c = _
        unfold Scanner.stepOutside
        rw [if_neg hc.1, if_neg hc.2.1]
        exact (if_neg hc.2.2.1).trans (if_neg hc.2.2.2.1)
      rw [List.foldl_cons, hstep, ih h.2]
      simp

end Scans

/-- The symbol of a text that has been written. -/
def Symbol.ofQuoted (text : String) : Symbol :=
  .text text (Quoting.of text.toList).long

theorem Scans.quoted (text : String) :
    Scans (quoted text.toList ++ ['\n']) [Symbol.ofQuoted text, .newline] where
  noReturn hmem := by
    rcases List.mem_append.mp hmem with h | h
    · exact not_mem_quoted _ h
    · exact absurd h (by decide)
  scan out := by
    rw [foldl_quoted, String.ofList_toList]
    rfl

/-! ## From symbols to statements -/

/-- A bare name. -/
structure IsName (name : String) : Prop where
  ne_nil : name.toList ≠ []
  chars : name.toList.all Reader.isNameChar = true

instance (name : String) : Decidable (IsName name) :=
  decidable_of_iff (name.toList ≠ [] ∧ name.toList.all Reader.isNameChar = true)
    ⟨fun h => ⟨h.1, h.2⟩, fun h => ⟨h.ne_nil, h.chars⟩⟩

/-- A character of a kind is none that is not of that kind. -/
theorem ne_of_kind {p : Char → Bool} {c d : Char} (h : p c = true) (hd : p d = false) :
    c ≠ d := by
  rintro rfl
  rw [h] at hd
  cases hd

theorem isOrdinary_of_isNameChar {c : Char} (h : Reader.isNameChar c = true) :
    isOrdinary c = true :=
  isOrdinary_iff.mpr ⟨ne_of_kind h (by decide), ne_of_kind h (by decide), ne_of_kind h (by decide),
    ne_of_kind h (by decide), ne_of_kind h (by decide)⟩

theorem IsName.all_isOrdinary {name : String} (h : IsName name) :
    name.toList.all isOrdinary = true :=
  List.all_eq_true.mpr fun c hc => isOrdinary_of_isNameChar (List.all_eq_true.mp h.chars c hc)

namespace Reader

variable {stack : List Frame} {out : List Statement} {place : Place} {parts : List String}

/-- A character of a name is neither blank nor a bracket. -/
theorem step_start_name {c : Char} (h : isNameChar c = true) :
    step ⟨stack, .lineStart, out⟩ (.char c) = ⟨stack, .inName .line [] [c], out⟩ ∧
      step ⟨stack, .bracket, out⟩ (.char c) = ⟨stack, .inName .header [] [c], out⟩ := by
  have hspace : c ≠ ' ' := ne_of_kind h (by decide)
  have htab : c ≠ '\t' := ne_of_kind h (by decide)
  have hbracket : c ≠ '[' := ne_of_kind h (by decide)
  constructor
  · simp [step, stepPlain, isBlank, stepName, State.to, h, hspace, htab, hbracket]
  · simp [step, stepPlain, isBlank, stepName, State.to, h, hspace, htab, hbracket]

/-- The characters of a word are collected one by one. -/
theorem foldl_collect {p : Char → Bool} {collecting : List Char → State}
    (hstep : ∀ done c, p c = true → step (collecting done) (.char c) = collecting (c :: done))
    {cs done : List Char} (h : cs.all p = true) :
    (cs.map Symbol.char).foldl step (collecting done) = collecting (cs.reverse ++ done) := by
  induction cs generalizing done with
  | nil => rfl
  | cons c cs ih =>
    rw [List.all_cons, Bool.and_eq_true] at h
    rw [List.map_cons, List.foldl_cons, hstep done c h.1, ih h.2]
    simp

theorem step_inName (done : List Char) (c : Char) (h : isNameChar c = true) :
    step ⟨stack, .inName place parts done, out⟩ (.char c) =
      ⟨stack, .inName place parts (c :: done), out⟩ := by
  simp [step, stepPlain, h, State.to]

theorem step_bareWord (done : List Char) (c : Char) (h : isWordChar c = true) :
    step ⟨stack, .bare done, out⟩ (.char c) = ⟨stack, .bare (c :: done), out⟩ := by
  simp [step, h, State.to]

end Reader

/-- Symbols of whole lines, and the statements that they are. -/
def Reads (symbols : List Symbol) (statements : List Statement) : Prop :=
  ∀ out, symbols.foldl Reader.step ⟨[], .lineStart, out⟩ =
    ⟨[], .lineStart, statements.reverse ++ out⟩

theorem Reads.append {symbols symbols' : List Symbol} {statements statements' : List Statement}
    (h : Reads symbols statements) (h' : Reads symbols' statements') :
    Reads (symbols ++ symbols') (statements ++ statements') := fun out => by
  rw [List.foldl_append, h, h', List.reverse_append, List.append_assoc]

/-- The symbols of a name, at the start of a line and in a header. -/
theorem IsName.foldl {name : String} (h : IsName name) (out : List Statement) :
    (name.toList.map Symbol.char).foldl Reader.step ⟨[], .lineStart, out⟩ =
        ⟨[], .inName .line [] name.toList.reverse, out⟩ ∧
      (name.toList.map Symbol.char).foldl Reader.step ⟨[], .bracket, out⟩ =
        ⟨[], .inName .header [] name.toList.reverse, out⟩ := by
  obtain ⟨hne, hall⟩ := h
  obtain ⟨c, cs, hcs⟩ := List.exists_cons_of_ne_nil hne
  rw [hcs] at hall ⊢
  rw [List.all_cons, Bool.and_eq_true] at hall
  rw [List.map_cons, List.foldl_cons, List.foldl_cons, (Reader.step_start_name hall.1).1,
    (Reader.step_start_name hall.1).2, List.reverse_cons]
  exact ⟨Reader.foldl_collect Reader.step_inName hall.2,
    Reader.foldl_collect Reader.step_inName hall.2⟩

/-- The symbols of a header. -/
theorem reads_header {name : String} (h : IsName name) :
    Reads (('[' :: name.toList ++ [']']).map .char ++ [.newline]) [.header ⟨[], name⟩] := by
  intro out
  rw [List.map_append, List.append_assoc, List.foldl_append, List.map_cons, List.foldl_cons]
  show List.foldl Reader.step (List.foldl Reader.step ⟨[], .bracket, out⟩ _) _ = _
  rw [(h.foldl out).2]
  show (⟨[], .lineStart, .header ⟨[], String.ofList _⟩ :: out⟩ : Reader.State) = _
  rw [List.reverse_reverse, String.ofList_toList]
  rfl

/-- The symbols in front of a value: the name that it is set to. -/
theorem foldl_setting {name : String} (h : IsName name) (out : List Statement) :
    ((name.toList ++ " = ".toList).map Symbol.char).foldl Reader.step ⟨[], .lineStart, out⟩ =
      ⟨[.line ⟨[], name⟩], .value, out⟩ := by
  rw [List.map_append, List.foldl_append, (h.foldl out).1]
  show (⟨[.line ⟨[], String.ofList _⟩], .value, out⟩ : Reader.State) = _
  rw [List.reverse_reverse, String.ofList_toList]

/-- The symbols of a setting with a text. -/
theorem reads_text {name : String} (h : IsName name) (t : String) (long : Bool) :
    Reads ((name.toList ++ " = ".toList).map .char ++ [.text t long, .newline])
      [.assign ⟨[], name⟩ (.text t)] := by
  intro out
  rw [List.foldl_append, foldl_setting h]
  rfl

/-- The symbols of a setting with a bare word. -/
theorem reads_bare {name : String} (h : IsName name) {cs : List Char} {v : Value} (hne : cs ≠ [])
    (hword : cs.all Reader.isWordChar = true) (hv : Value.ofBare? cs = some v) :
    Reads ((name.toList ++ " = ".toList).map .char ++ (cs.map .char ++ [.newline]))
      [.assign ⟨[], name⟩ v] := by
  intro out
  obtain ⟨c, cs, rfl⟩ := List.exists_cons_of_ne_nil hne
  rw [List.all_cons, Bool.and_eq_true] at hword
  have hspace : c ≠ ' ' := ne_of_kind hword.1 (by decide)
  have htab : c ≠ '\t' := ne_of_kind hword.1 (by decide)
  have harray : c ≠ '[' := ne_of_kind hword.1 (by decide)
  have htable : c ≠ '\x7b' := ne_of_kind hword.1 (by decide)
  have hstart : Reader.step ⟨[.line ⟨[], name⟩], .value, out⟩ (.char c) =
      ⟨[.line ⟨[], name⟩], .bare [c], out⟩ := by
    simp [Reader.step, Reader.stepPlain, Reader.stepValue, Reader.isBlank, Reader.State.to, hspace,
      htab, harray, htable, hword.1]
  have hend : Reader.endBare ⟨[.line ⟨[], name⟩], .bare (cs.reverse ++ [c]), out⟩
      (cs.reverse ++ [c]) = ⟨[], .lineEnd, .assign ⟨[], name⟩ v :: out⟩ := by
    unfold Reader.endBare
    rw [← List.reverse_cons, List.reverse_reverse, hv]
    rfl
  rw [List.foldl_append, foldl_setting h, List.map_cons, List.cons_append, List.foldl_cons, hstart,
    List.foldl_append, Reader.foldl_collect Reader.step_bareWord hword.2]
  show Reader.stepPlain (Reader.endBare _ _) _ = _
  rw [hend]
  rfl

/-! ## Lines -/

/-- A part of a text that consists of whole lines, and the statements that they are. -/
def Lines (cs : List Char) (statements : List Statement) : Prop :=
  ∃ symbols, Scans cs symbols ∧ Reads symbols statements

namespace Lines

variable {cs cs' : List Char} {statements statements' : List Statement} {name : String}

theorem nil : Lines [] [] :=
  ⟨[], ⟨List.not_mem_nil, fun _ => rfl⟩, fun _ => rfl⟩

theorem append (h : Lines cs statements) (h' : Lines cs' statements') :
    Lines (cs ++ cs') (statements ++ statements') := by
  obtain ⟨symbols, hscan, hread⟩ := h
  obtain ⟨symbols', hscan', hread'⟩ := h'
  exact ⟨symbols ++ symbols', hscan.append hscan', hread.append hread'⟩

/-- A line without anything on it. -/
theorem empty : Lines ['\n'] [] :=
  ⟨[.newline], .newline, fun _ => rfl⟩

theorem header (h : IsName name) :
    Lines ('[' :: name.toList ++ "]\n".toList) [.header ⟨[], name⟩] := by
  have hchars : ('[' :: name.toList ++ [']']).all isOrdinary = true := by
    rw [List.all_append, List.all_cons, h.all_isOrdinary]
    decide
  have hscan := (Scans.chars hchars).append .newline
  rw [List.append_assoc] at hscan
  exact ⟨_, hscan, reads_header h⟩

theorem scans_setting (h : IsName name) :
    Scans (name.toList ++ " = ".toList) ((name.toList ++ " = ".toList).map .char) := by
  refine .chars ?_
  rw [List.all_append, h.all_isOrdinary]
  decide

theorem text (h : IsName name) (t : String) :
    Lines (name.toList ++ " = ".toList ++ quoted t.toList ++ ['\n'])
      [.assign ⟨[], name⟩ (.text t)] := by
  rw [List.append_assoc]
  exact ⟨_, (scans_setting h).append (.quoted t), reads_text h t _⟩

theorem integer (h : IsName name) {n : Nat} (hn : (n : Int) ≤ Int64.maxValue.toInt) :
    Lines (name.toList ++ " = ".toList ++ Nat.toDigits 10 n ++ ['\n'])
      [.assign ⟨[], name⟩ (.integer n)] := by
  have hname (c : Char) (hc : c ∈ Nat.toDigits 10 n) : Reader.isNameChar c = true := by
    unfold Reader.isNameChar Char.isAlphanum
    rw [isDigit_of_mem_toDigits hc, Bool.or_true, Bool.true_or, Bool.true_or]
  have hchars : (Nat.toDigits 10 n).all isOrdinary = true :=
    List.all_eq_true.mpr fun c hc => isOrdinary_of_isNameChar (hname c hc)
  have hword : (Nat.toDigits 10 n).all Reader.isWordChar = true :=
    List.all_eq_true.mpr fun c hc => by
      rw [Reader.isWordChar, hname c hc, Bool.true_or, Bool.true_or, Bool.true_or]
  rw [List.append_assoc]
  exact ⟨_, (scans_setting h).append ((Scans.chars hchars).append .newline),
    reads_bare h Nat.toDigits_ne_nil hword (ofBare?_toDigits hn)⟩

end Lines

theorem joinLineEnds_eq_self {cs : List Char} (h : '\r' ∉ cs) : joinLineEnds cs = cs := by
  induction cs with
  | nil => rfl
  | cons c cs ih =>
    have hc : c ≠ '\r' := fun heq => h (heq ▸ .head _)
    rw [joinLineEnds, ih fun hmem => h (.tail _ hmem)]
    exact fun _ heq => absurd heq hc

/-- A text of whole lines is the document that their statements make. -/
theorem read_of_lines {cs : List Char} {statements : List Statement} (h : Lines cs statements)
    (hmark : cs.head? ≠ some '\ufeff') :
    read (String.ofList cs) = Table.ofStatements? statements := by
  obtain ⟨symbols, hscan, hread⟩ := h
  have hdrop : dropOrderMark cs = cs := by
    unfold dropOrderMark
    split
    · exact absurd rfl hmark
    · rfl
  have hsymbols : Symbol.ofText? cs = some symbols := by
    unfold Symbol.ofText?
    rw [joinLineEnds_eq_self hscan.noReturn, hscan.scan]
    simp [Scanner.finish]
  have hstatements : Statement.ofSymbols? symbols = some statements := by
    unfold Statement.ofSymbols? Reader.start
    rw [hread]
    simp [Reader.finish]
  unfold read
  rw [String.toList_ofList, hdrop, hsymbols]
  show (Statement.ofSymbols? symbols).bind Table.ofStatements? = _
  rw [hstatements]
  rfl

end Courier.Toml
