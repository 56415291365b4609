import Courier.Config.File
import Courier.Proofs.Toml.Integers
import Courier.Proofs.Toml.Lines
import Courier.Proofs.Toml.Sections

/-!
# The sections of a configuration

A configuration in terms of TOML: `written` gives the values that the settings of a section are
written as, `layout` the names of all sections and settings. In the other direction, a value that
stands for a section passes on its integers only (`section?_fits`).
-/

namespace Courier.Config

open Toml

/-- The value that a setting is written as. -/
def Setting.value : Setting → Value
  | .text s => .text s
  | .seconds n => .integer n.toNat

/-- A section with the values that its settings are written as. -/
def written (s : String × List (String × Setting)) : Section :=
  (s.1, s.2.map fun e => (e.1, e.2.value))

/-- The sections and the names of their settings, in the order in which they are written. -/
def layout : List (String × List String) :=
  [("node", nodeSettings), ("devices", deviceSettings), ("handshake", handshakeSettings),
    ("polling", pollingSettings), ("unlink", unlinkSettings)]

theorem layout_sections (c : Config) :
    c.sections.map (fun s => (s.1, s.2.map Prod.fst)) = layout :=
  rfl

/-- Every section has a name of its own, and so has every setting in it. -/
theorem layout_names : (layout.map Prod.fst).Nodup ∧
    ∀ s ∈ layout, IsName s.1 ∧ s.2.Nodup ∧ ∀ name ∈ s.2, IsName name := by
  decide

theorem names_of_mem {c : Config} {s : String × List (String × Setting)} (h : s ∈ c.sections) :
    IsName s.1 ∧ (s.2.map Prod.fst).Nodup ∧ ∀ e ∈ s.2, IsName e.1 := by
  have hmem : (s.1, s.2.map Prod.fst) ∈ layout :=
    List.mem_map_of_mem (f := fun s => (s.1, s.2.map Prod.fst)) h
  obtain ⟨hname, hnodup, hnames⟩ := layout_names.2 _ hmem
  exact ⟨hname, hnodup, fun e he => hnames _ (List.mem_map_of_mem he)⟩

/-- An integer of a document that is not negative is a span of seconds as it stands. -/
theorem toNat_ofNat_of_fits {n : Int} (hn : 0 ≤ n) (h : Scalar.fits n = true) :
    ((UInt64.ofNat n.toNat).toNat : Int) = n := by
  simp only [Scalar.fits, Bool.and_eq_true, decide_eq_true_eq] at h
  have hmax : Int64.maxValue.toInt < 2 ^ 64 := by decide
  rw [UInt64.toNat_ofNat_of_lt' (by show n.toNat < 2 ^ 64; omega), Int.toNat_of_nonneg hn]

/-- A value that stands for a section brings in no integer of its own. -/
theorem section?_fits {settings : List String} {v : Value} {entries : Table} (hv : v.Fits)
    (h : section? settings v = some entries) : entries.Fits := by
  unfold section? at h
  split at h
  · cases h
    cases hv with
    | table hentries => exact hentries
  · next items =>
    cases h
    cases hv with
    | array hitems => exact fun e he => hitems e.2 (List.of_mem_zip he).2
  · next elements =>
    cases h
    cases hv with
    | tables helements =>
      intro e he
      obtain ⟨t, ht, heq⟩ := List.mem_map.mp (List.of_mem_zip he).2
      rw [← heq]
      exact .table (helements t ht)
  · cases h
    exact Table.fits_nil
  · cases h

theorem optionalSection?_fits {root entries : Table} {name : String} {settings : List String}
    (hroot : root.Fits) (h : optionalSection? root name settings = some entries) :
    entries.Fits := by
  unfold optionalSection? at h
  split at h
  · cases h
    exact Table.fits_nil
  · next hget => exact section?_fits (hroot.get? hget) h

theorem load_some {octets : Octets} {text : String} (htext : textOf? octets = some text) :
    load (some octets) = (ofText? text).elim (.error .malformed) .ok := by
  cases hc : ofText? text with
  | none => simp [load, htext, hc]
  | some c => simp [load, htext, hc]

/-- A configuration is read from its sections, one setting at a time. -/
theorem ofTable?_eq_some_iff {root : Table} {c : Config} : ofTable? root = some c ↔
    ∃ v node devices handshake polling unlink,
      root.get? "node" = some v ∧ section? nodeSettings v = some node ∧
      optionalSection? root "devices" deviceSettings = some devices ∧
      optionalSection? root "handshake" handshakeSettings = some handshake ∧
      optionalSection? root "polling" pollingSettings = some polling ∧
      optionalSection? root "unlink" unlinkSettings = some unlink ∧
      textAt? node "local_identity" default.localIdentity = some c.localIdentity ∧
      textAt? node "database" default.database = some c.database ∧
      secondsAt? devices "refresh_interval_secs" default.refreshInterval =
        some c.refreshInterval ∧
      secondsAt? handshake "expiry_secs" default.handshakeExpiry = some c.handshakeExpiry ∧
      secondsAt? polling "min_interval_secs" default.pollMin = some c.pollMin ∧
      secondsAt? polling "max_interval_secs" default.pollMax = some c.pollMax ∧
      secondsAt? polling "idle_limit_secs" default.pollIdleLimit = some c.pollIdleLimit ∧
      secondsAt? unlink "max_view_age_secs" default.maxViewAge = some c.maxViewAge := by
  constructor
  · intro h
    unfold ofTable? at h
    obtain ⟨v, hv, h⟩ := Option.bind_eq_some_iff.mp h
    obtain ⟨node, hnode, h⟩ := Option.bind_eq_some_iff.mp h
    obtain ⟨devices, hdevices, h⟩ := Option.bind_eq_some_iff.mp h
    obtain ⟨handshake, hhandshake, h⟩ := Option.bind_eq_some_iff.mp h
    obtain ⟨polling, hpolling, h⟩ := Option.bind_eq_some_iff.mp h
    obtain ⟨unlink, hunlink, h⟩ := Option.bind_eq_some_iff.mp h
    obtain ⟨localIdentity, hidentity, h⟩ := Option.bind_eq_some_iff.mp h
    obtain ⟨database, hdatabase, h⟩ := Option.bind_eq_some_iff.mp h
    obtain ⟨refreshInterval, hrefresh, h⟩ := Option.bind_eq_some_iff.mp h
    obtain ⟨handshakeExpiry, hexpiry, h⟩ := Option.bind_eq_some_iff.mp h
    obtain ⟨pollMin, hmin, h⟩ := Option.bind_eq_some_iff.mp h
    obtain ⟨pollMax, hmax, h⟩ := Option.bind_eq_some_iff.mp h
    obtain ⟨pollIdleLimit, hidle, h⟩ := Option.bind_eq_some_iff.mp h
    obtain ⟨maxViewAge, hage, h⟩ := Option.bind_eq_some_iff.mp h
    cases h
    exact ⟨v, node, devices, handshake, polling, unlink, hv, hnode, hdevices, hhandshake, hpolling,
      hunlink, hidentity, hdatabase, hrefresh, hexpiry, hmin, hmax, hidle, hage⟩
  · rintro ⟨v, node, devices, handshake, polling, unlink, hv, hnode, hdevices, hhandshake, hpolling,
      hunlink, hidentity, hdatabase, hrefresh, hexpiry, hmin, hmax, hidle, hage⟩
    simp only [ofTable?, hv, hnode, hdevices, hhandshake, hpolling, hunlink, hidentity, hdatabase,
      hrefresh, hexpiry, hmin, hmax, hidle, hage, Option.bind_eq_bind, Option.bind_some,
      Option.pure_def]

end Courier.Config
