import Courier.Proofs.Config.Sections

/-!
# Settings that a document leaves out

A document may leave out any setting, and any section but one: without the section `node` it is
refused, even where it sets nothing else either. `Follows` says that a configuration takes every
setting from a document if it is there, and from the defaults if not.

* `taken_of_admits`: one setting.
* `section_taken`: one section, with all of its settings.
* `load_follows_iff`: a document whose sections and settings have their types is followed exactly if
  it has the section `node`.
-/

namespace Courier.Config

open Toml

/-- The value that a document gives to a setting. -/
def given? (root : Table) (name key : String) : Option Value :=
  match root.get? name with
  | some (.table _ entries) => Table.get? entries key
  | _ => none

/-- Whether a value has the type of a setting: a text, or an integer that is not negative. -/
def Setting.admits : Setting → Value → Bool
  | .text _, .text _ => true
  | .seconds _, .integer n => 0 ≤ n
  | _, _ => false

/-- Whether a value is a table of its own. -/
def isTable : Value → Bool
  | .table _ _ => true
  | _ => false

/-- A document whose sections are tables and whose settings have their types. Whatever else it
holds may be of any type. -/
structure WellTyped (root : Table) : Prop where
  sections : ∀ s ∈ default.sections, ∀ v ∈ root.get? s.1, isTable v = true
  settings : ∀ s ∈ default.sections, ∀ e ∈ s.2, ∀ v ∈ given? root s.1 e.1, e.2.admits v = true

instance (root : Table) : Decidable (WellTyped root) :=
  decidable_of_iff
    ((∀ s ∈ default.sections, ∀ v ∈ root.get? s.1, isTable v = true) ∧
      ∀ s ∈ default.sections, ∀ e ∈ s.2, ∀ v ∈ given? root s.1 e.1, e.2.admits v = true)
    ⟨fun h => ⟨h.1, h.2⟩, fun h => ⟨h.sections, h.settings⟩⟩

/-- The configuration that takes its settings from a document, and from the defaults where the
document gives none. -/
def Follows (c : Config) (root : Table) : Prop :=
  c.sections.map written = default.sections.map fun s =>
    (s.1, s.2.map fun e => (e.1, (given? root s.1 e.1).getD e.2.value))

/-- What is read for a setting among the settings of a section has this value. -/
def Setting.Taken (entries : Table) (key : String) (v : Value) : Setting → Prop
  | .text other => ∃ s, textAt? entries key other = some s ∧ (Setting.text s).value = v
  | .seconds other => ∃ n, secondsAt? entries key other = some n ∧ (Setting.seconds n).value = v

/-- A setting is taken from its section if it is there, and from the defaults if not. -/
theorem taken_of_admits {entries : Table} {key : String} {setting : Setting} (hfits : entries.Fits)
    (h : ∀ v ∈ entries.get? key, setting.admits v = true) :
    setting.Taken entries key ((entries.get? key).getD setting.value) := by
  cases setting with
  | text other =>
    unfold Setting.Taken textAt?
    cases hget : entries.get? key with
    | none => exact ⟨other, rfl, rfl⟩
    | some v =>
      have hv := h v hget
      cases v with
      | text s => exact ⟨s, rfl, rfl⟩
      | _ => cases hv
  | seconds other =>
    unfold Setting.Taken secondsAt?
    cases hget : entries.get? key with
    | none => exact ⟨other, rfl, rfl⟩
    | some v =>
      have hv := h v hget
      cases v with
      | integer n =>
        have hn : 0 ≤ n := of_decide_eq_true hv
        cases hfits.get? hget with
        | integer hfits =>
          exact ⟨_, if_pos hn, congrArg Value.integer (toNat_ofNat_of_fits hn hfits)⟩
      | _ => cases hv

/-- A section of a document may be missing, and so may each of its settings. -/
theorem section_taken {root : Table} (hroot : root.Fits) (htyped : WellTyped root)
    {s : String × List (String × Setting)} (hs : s ∈ default.sections) :
    ∃ entries, optionalSection? root s.1 (s.2.map Prod.fst) = some entries ∧
      ∀ e ∈ s.2, e.2.Taken entries e.1 ((given? root s.1 e.1).getD e.2.value) := by
  obtain ⟨entries, hopt, hget⟩ :
      ∃ entries, optionalSection? root s.1 (s.2.map Prod.fst) = some entries ∧
        ∀ key, entries.get? key = given? root s.1 key := by
    unfold optionalSection? given?
    cases hget : root.get? s.1 with
    | none => exact ⟨[], rfl, fun _ => rfl⟩
    | some v =>
      have hv := htyped.sections s hs v hget
      cases v with
      | table origin entries => exact ⟨entries, rfl, fun _ => rfl⟩
      | _ => cases hv
  refine ⟨entries, hopt, fun e he => ?_⟩
  rw [← hget]
  exact taken_of_admits (optionalSection?_fits hroot hopt) fun v hv =>
    htyped.settings s hs e he v (hget e.1 ▸ hv)

/-- A document with all types right is followed if it has the section `node`. -/
theorem ofTable?_follows {root : Table} (hroot : root.Fits) (htyped : WellTyped root)
    (hnode : root.get? "node" ≠ none) : ∃ c, ofTable? root = some c ∧ Follows c root := by
  obtain ⟨v, hv⟩ := Option.ne_none_iff_exists'.mp hnode
  obtain ⟨node, hopt, htaken⟩ := section_taken hroot htyped (.head _)
  have hsection : section? nodeSettings v = some node := by
    rw [← hopt, optionalSection?, hv]
    rfl
  obtain ⟨localIdentity, hidentity, hidentity'⟩ := htaken _ (.head _)
  obtain ⟨database, hdatabase, hdatabase'⟩ := htaken _ (.tail _ (.head _))
  obtain ⟨devices, hdevices, htaken⟩ := section_taken hroot htyped (.tail _ (.head _))
  obtain ⟨refresh, hrefresh, hrefresh'⟩ := htaken _ (.head _)
  obtain ⟨handshake, hhandshake, htaken⟩ := section_taken hroot htyped (.tail _ (.tail _ (.head _)))
  obtain ⟨expiry, hexpiry, hexpiry'⟩ := htaken _ (.head _)
  obtain ⟨polling, hpolling, htaken⟩ :=
    section_taken hroot htyped (.tail _ (.tail _ (.tail _ (.head _))))
  obtain ⟨pollMin, hmin, hmin'⟩ := htaken _ (.head _)
  obtain ⟨pollMax, hmax, hmax'⟩ := htaken _ (.tail _ (.head _))
  obtain ⟨idleLimit, hidle, hidle'⟩ := htaken _ (.tail _ (.tail _ (.head _)))
  obtain ⟨unlink, hunlink, htaken⟩ :=
    section_taken hroot htyped (.tail _ (.tail _ (.tail _ (.tail _ (.head _)))))
  obtain ⟨maxViewAge, hage, hage'⟩ := htaken _ (.head _)
  refine ⟨⟨localIdentity, database, refresh, expiry, pollMin, pollMax, idleLimit, maxViewAge⟩,
    ?_, ?_⟩
  · exact ofTable?_eq_some_iff.mpr ⟨v, node, devices, handshake, polling, unlink, hv, hsection,
      hdevices, hhandshake, hpolling, hunlink, hidentity, hdatabase, hrefresh, hexpiry, hmin, hmax,
      hidle, hage⟩
  · unfold Follows
    simp only [sections, written, List.map_cons, List.map_nil, hidentity', hdatabase', hrefresh',
      hexpiry', hmin', hmax', hidle', hage']

/-- A document in which all types are right is followed exactly if it has the section `node`;
without it, it is refused. -/
theorem load_follows_iff {octets : Octets} {text : String} {root : Table}
    (htext : textOf? octets = some text) (hread : Toml.read text = some root)
    (htyped : WellTyped root) :
    ((∃ c, load (some octets) = .ok c ∧ Follows c root) ↔ root.get? "node" ≠ none) ∧
      (root.get? "node" = none → load (some octets) = .error .malformed) := by
  have hload : load (some octets) = (ofTable? root).elim (.error .malformed) .ok := by
    rw [load_some htext, ofText?, hread, Option.bind_some]
  have hrefused (h : root.get? "node" = none) : load (some octets) = .error .malformed := by
    have hnone : ofTable? root = none := by
      unfold ofTable?
      rw [h]
      rfl
    rw [hload, hnone, Option.elim_none]
  refine ⟨⟨?_, fun hnode => ?_⟩, hrefused⟩
  · rintro ⟨c, hc, -⟩ hnode
    rw [hrefused hnode] at hc
    cases hc
  · obtain ⟨c, hc, hfollows⟩ := ofTable?_follows (read_fits hread) htyped hnode
    exact ⟨c, by rw [hload, hc, Option.elim_some], hfollows⟩

/-- A document with some of the sections, some of their settings, and one that is unknown. -/
theorem load_follows_of_partial_document :
    ∃ text root c,
      text = "[node]\ndatabase = \"/tmp/db\"\n[polling]\nmin_interval_secs = 5\nx = 1\n" ∧
      Toml.read text = some root ∧ WellTyped root ∧ root.get? "node" ≠ none ∧
      load (some (octetsOf text)) = .ok c ∧ Follows c root := by
  have hread :
      Toml.read "[node]\ndatabase = \"/tmp/db\"\n[polling]\nmin_interval_secs = 5\nx = 1\n" =
        some [("node", .table .header [("database", .text "/tmp/db")]),
          ("polling", .table .header [("min_interval_secs", .integer 5), ("x", .integer 1)])] := by
    rfl
  obtain ⟨c, hload, hfollows⟩ :=
    (load_follows_iff (textOf?_octetsOf _) hread (by decide)).1.mpr nofun
  exact ⟨_, _, c, rfl, hread, by decide, nofun, hload, hfollows⟩

/-- An empty file is refused, although it holds nothing that could be wrong; without a file, there
are the defaults. -/
theorem load_empty_ne_default :
    Toml.read "" = some [] ∧ WellTyped [] ∧ (¬∃ c, load (some (octetsOf "")) = .ok c) ∧
      load (some (octetsOf "")) ≠ load none := by
  have hload : load (some (octetsOf "")) = .error .malformed := by
    rw [load_some (textOf?_octetsOf "")]
    rfl
  rw [hload]
  exact ⟨rfl, by decide, nofun, nofun⟩

end Courier.Config
