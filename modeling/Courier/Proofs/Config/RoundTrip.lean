import Courier.CommandLine.Run
import Courier.Proofs.Config.Sections

/-!
# Writing a configuration and reading it back

* `sections_lines`: what a configuration is written as consists of lines, and its statements are
  those of its sections.
* `ofTable?_tables`: the tables of those sections hold the configuration.
* `writable_of_load`: a configuration that has been loaded can be written, because no integer in a
  document is too large to be written again.
* `load_render`: so it is written and read back as it was.
-/

namespace Courier.Config

open Toml

/-- A setting that can be written: a span that fits an integer of TOML. -/
def Setting.Writable : Setting → Prop
  | .text _ => True
  | .seconds n => n.toNat ≤ Int64.maxValue.toInt

/-- A configuration that can be written. -/
def Writable (c : Config) : Prop :=
  ∀ s ∈ c.sections, ∀ e ∈ s.2, e.2.Writable

/-! ## Lines -/

theorem renderSetting?_lines {e : String × Setting} (hname : IsName e.1) (h : e.2.Writable) :
    ∃ cs, renderSetting? e = some cs ∧ Lines cs [.assign ⟨[], e.1⟩ e.2.value] := by
  obtain ⟨name, setting⟩ := e
  cases setting with
  | text s => exact ⟨_, rfl, .text hname s⟩
  | seconds n =>
    have hfits : n.toNat ≤ Int64.maxValue.toInt := h
    refine ⟨_, ?_, .integer hname h⟩
    show ((if _ then _ else _) : Option (List Char)).map _ = _
    rw [if_pos hfits]
    rfl

/-- Parts that are written one by one are written together. -/
theorem mapM_lines {α : Type} {f : α → Option (List Char)} {g : α → List Statement} {l : List α}
    (h : ∀ a ∈ l, ∃ cs, f a = some cs ∧ Lines cs (g a)) :
    ∃ parts, l.mapM f = some parts ∧ List.Forall₂ Lines parts (l.map g) := by
  induction l with
  | nil => exact ⟨[], rfl, .nil⟩
  | cons a l ih =>
    obtain ⟨cs, hcs, hlines⟩ := h a (.head _)
    obtain ⟨parts, hparts, hrest⟩ := ih fun a ha => h a (.tail _ ha)
    refine ⟨cs :: parts, ?_, .cons hlines hrest⟩
    rw [List.mapM_cons, hcs, hparts]
    rfl

theorem lines_flatten {parts : List (List Char)} {statements : List (List Statement)}
    (h : List.Forall₂ Lines parts statements) : Lines parts.flatten statements.flatten := by
  induction h with
  | nil => exact .nil
  | cons hlines _ ih => exact hlines.append ih

/-- An empty line may stand between two parts. -/
theorem lines_intercalate {parts : List (List Char)} {statements : List (List Statement)}
    (h : List.Forall₂ Lines parts statements) :
    Lines (List.intercalate ['\n'] parts) statements.flatten := by
  induction h with
  | nil => exact .nil
  | @cons cs statements parts rest hlines hrest ih =>
    cases hrest with
    | nil =>
      rw [List.intercalate_singleton, List.flatten_singleton]
      exact hlines
    | cons _ _ =>
      rw [List.intercalate_cons_cons, List.flatten_cons, List.append_assoc]
      exact hlines.append (Lines.empty.append ih)

theorem renderSection?_lines {c : Config} {s : String × List (String × Setting)}
    (hs : s ∈ c.sections) (h : ∀ e ∈ s.2, e.2.Writable) :
    ∃ cs, renderSection? s = some cs ∧ Lines cs (written s).statements := by
  obtain ⟨hname, -, hnames⟩ := names_of_mem hs
  obtain ⟨lines, hmapM, hlines⟩ :=
    mapM_lines fun e he => renderSetting?_lines (hnames e he) (h e he)
  have hsettings := lines_flatten hlines
  rw [← List.flatMap_def, ← List.map_eq_flatMap] at hsettings
  refine ⟨'[' :: s.1.toList ++ "]\n".toList ++ lines.flatten, ?_, ?_⟩
  · unfold renderSection?
    rw [hmapM]
    rfl
  · unfold Section.statements written
    rw [List.map_map]
    exact (Lines.header hname).append hsettings

/-- The first section begins with its bracket, and so does the text. -/
theorem head?_of_mapM {c : Config} {parts : List (List Char)}
    (h : c.sections.mapM renderSection? = some parts) :
    (List.intercalate ['\n'] parts).head? = some '[' := by
  unfold sections at h
  rw [List.mapM_cons] at h
  obtain ⟨first, hfirst, h⟩ := Option.bind_eq_some_iff.mp h
  obtain ⟨rest, -, h⟩ := Option.bind_eq_some_iff.mp h
  unfold renderSection? at hfirst
  obtain ⟨lines, -, hlines⟩ := Option.bind_eq_some_iff.mp hfirst
  cases h
  cases hlines
  cases rest with
  | nil => rfl
  | cons _ _ => rfl

/-- A configuration is written in lines that stand for its sections. -/
theorem sections_lines {c : Config} (h : c.Writable) :
    ∃ cs, c.render? = some (String.ofList cs) ∧ cs.head? = some '[' ∧
      Lines cs ((c.sections.map written).flatMap Section.statements) := by
  obtain ⟨parts, hmapM, hlines⟩ := mapM_lines fun s hs => renderSection?_lines hs (h s hs)
  have hall := lines_intercalate hlines
  rw [← List.flatMap_def] at hall
  refine ⟨List.intercalate ['\n'] parts, ?_, head?_of_mapM hmapM, by rwa [List.flatMap_map]⟩
  unfold render?
  rw [hmapM]
  rfl

/-! ## Tables -/

/-- The tables of the sections hold the configuration. -/
theorem ofTable?_tables (c : Config) :
    ofTable? ((c.sections.map written).map Section.table) = some c := by
  have hfields : ofTable? ((c.sections.map written).map Section.table) =
      some {
        localIdentity := c.localIdentity
        database := c.database
        refreshInterval := .ofNat c.refreshInterval.toNat
        handshakeExpiry := .ofNat c.handshakeExpiry.toNat
        pollMin := .ofNat c.pollMin.toNat
        pollMax := .ofNat c.pollMax.toNat
        pollIdleLimit := .ofNat c.pollIdleLimit.toNat
        maxViewAge := .ofNat c.maxViewAge.toNat } :=
    rfl
  simp only [hfields, UInt64.ofNat_toNat]

/-- A configuration that can be written is read back from what it is written as. -/
theorem load_render?_of_writable {c : Config} (h : c.Writable) :
    ∃ text, c.render? = some text ∧ load (some (octetsOf text)) = .ok c := by
  obtain ⟨cs, hrender, hhead, hlines⟩ := sections_lines h
  have hnames : ((c.sections.map written).map Prod.fst).Nodup := by
    have hlayout := layout_names.1
    rw [← layout_sections c, List.map_map] at hlayout
    rwa [List.map_map]
  have hread : Toml.read (String.ofList cs) =
      some ((c.sections.map written).map Section.table) := by
    rw [read_of_lines hlines (by rw [hhead]; decide)]
    refine ofStatements?_sections hnames fun s hs => ?_
    obtain ⟨s, hmem, rfl⟩ := List.mem_map.mp hs
    have hsettings := (names_of_mem hmem).2.1
    rwa [written, List.map_map]
  refine ⟨String.ofList cs, hrender, ?_⟩
  have hloaded : ofText? (String.ofList cs) = some c := by
    rw [ofText?, hread, Option.bind_some, ofTable?_tables]
  rw [load_some (textOf?_octetsOf _), hloaded, Option.elim_some]

/-! ## What has been loaded can be written -/

theorem secondsAt?_writable {entries : Table} {name : String} {other n : UInt64}
    (hentries : entries.Fits) (hother : (Setting.seconds other).Writable)
    (h : secondsAt? entries name other = some n) : (Setting.seconds n).Writable := by
  unfold secondsAt? at h
  split at h
  · cases h
    exact hother
  · next m hget =>
    split at h
    · next hm =>
      cases h
      cases hentries.get? hget with
      | integer hfits =>
        show ((UInt64.ofNat m.toNat).toNat : Int) ≤ Int64.maxValue.toInt
        rw [toNat_ofNat_of_fits hm hfits]
        simp only [Scalar.fits, Bool.and_eq_true, decide_eq_true_eq] at hfits
        exact hfits.2
    · cases h
  · cases h

theorem writable_iff {c : Config} : c.Writable ↔
    (Setting.seconds c.refreshInterval).Writable ∧ (Setting.seconds c.handshakeExpiry).Writable ∧
    (Setting.seconds c.pollMin).Writable ∧ (Setting.seconds c.pollMax).Writable ∧
    (Setting.seconds c.pollIdleLimit).Writable ∧ (Setting.seconds c.maxViewAge).Writable := by
  have htext (s : String) : (Setting.text s).Writable := trivial
  simp only [Writable, sections, List.forall_mem_cons, List.not_mem_nil, false_implies,
    implies_true, and_true, htext, true_and, and_assoc]

theorem writable_default : default.Writable :=
  writable_iff.mpr (by unfold Setting.Writable; decide)

theorem writable_of_ofTable? {root : Table} {c : Config} (hroot : root.Fits)
    (h : ofTable? root = some c) : c.Writable := by
  obtain ⟨_, _, devices, handshake, polling, unlink, -, -, hdevices, hhandshake, hpolling, hunlink,
    -, -, hrefresh, hexpiry, hmin, hmax, hidle, hage⟩ := ofTable?_eq_some_iff.mp h
  have hdefault := writable_iff.mp writable_default
  exact writable_iff.mpr
    ⟨secondsAt?_writable (optionalSection?_fits hroot hdevices) hdefault.1 hrefresh,
      secondsAt?_writable (optionalSection?_fits hroot hhandshake) hdefault.2.1 hexpiry,
      secondsAt?_writable (optionalSection?_fits hroot hpolling) hdefault.2.2.1 hmin,
      secondsAt?_writable (optionalSection?_fits hroot hpolling) hdefault.2.2.2.1 hmax,
      secondsAt?_writable (optionalSection?_fits hroot hpolling) hdefault.2.2.2.2.1 hidle,
      secondsAt?_writable (optionalSection?_fits hroot hunlink) hdefault.2.2.2.2.2 hage⟩

theorem writable_of_load {file : Option Octets} {c : Config} (h : load file = .ok c) :
    c.Writable := by
  unfold load at h
  split at h
  · cases h
    exact writable_default
  · split at h
    · cases h
    · next text _ =>
      split at h
      · cases h
      · next hc =>
        cases h
        obtain ⟨root, hroot, hc⟩ := Option.bind_eq_some_iff.mp hc
        exact writable_of_ofTable? (read_fits hroot) hc

/-- A configuration that has been loaded can be printed, and what is printed loads as the same
configuration. -/
theorem load_render {file : Option Octets} {c : Config} (h : load file = .ok c) :
    ∃ text, c.render? = some text ∧
      (∀ {m : Type → Type} [Monad m] (host : CommandLine.Host m),
        CommandLine.perform host c .config = pure (.success text)) ∧
      load (some (octetsOf text)) = .ok c := by
  obtain ⟨text, hrender, hload⟩ := load_render?_of_writable (writable_of_load h)
  refine ⟨text, hrender, fun host => ?_, hload⟩
  show pure (CommandLine.Outcome.ofOption c.render?) = _
  rw [hrender]
  rfl

/-- An identity that only escapes can hold, and the largest integer there is. -/
theorem load_render_of_escapes :
    ∃ document c,
      document = "[node]\nlocal_identity = \"it's '''\\\"\\\\\\n\\u0001\"\n" ++
        "[polling]\nmax_interval_secs = 9223372036854775807" ∧
      c.localIdentity = "it's '''\"\\\n\x01" ∧ c.pollMax = 9223372036854775807 ∧
      load (some (octetsOf document)) = .ok c ∧
      ∃ text, c.render? = some text ∧ load (some (octetsOf text)) = .ok c := by
  obtain ⟨document, hdocument⟩ : ∃ document : String,
      document = "[node]\nlocal_identity = \"it's '''\\\"\\\\\\n\\u0001\"\n" ++
        "[polling]\nmax_interval_secs = 9223372036854775807" := ⟨_, rfl⟩
  have hload : load (some (octetsOf document)) = .ok { default with
      localIdentity := "it's '''\"\\\n\x01"
      pollMax := 9223372036854775807 } := by
    rw [load_some (textOf?_octetsOf _), hdocument]
    decide +kernel
  obtain ⟨text, hrender, -, hprinted⟩ := load_render hload
  exact ⟨document, _, hdocument, rfl, rfl, hload, text, hrender, hprinted⟩

end Courier.Config
