import Courier.Proofs.Lists
import Courier.Toml.Document
import Mathlib.Tactic.SplitIfs

/-!
# The integers of a document

Every integer in a document that has been read fits 64 bits with its sign, however deep in arrays
and tables it stands (`read_fits`). Integers come from bare words only (`ofBare?_fits`); from there
on the reader passes values from one frame to the next (`Reader.step_fits`), and tables only ever
take in values that are complete (`Table.within_fits`, `Draft.apply_fits`).
-/

namespace Courier.Toml

/-- Every integer in the value fits 64 bits. -/
inductive Value.Fits : Value → Prop where
  | text (s : String) : Fits (.text s)
  | integer {n : Int} (h : Scalar.fits n = true) : Fits (.integer n)
  | float (literal : String) : Fits (.float literal)
  | boolean (b : Bool) : Fits (.boolean b)
  | dateTime (literal : String) : Fits (.dateTime literal)
  | array {items : List Value} (h : ∀ v ∈ items, v.Fits) : Fits (.array items)
  | table {origin : TableOrigin} {entries : List (String × Value)} (h : ∀ e ∈ entries, e.2.Fits) :
    Fits (.table origin entries)
  | tables {elements : List (List (String × Value))} (h : ∀ t ∈ elements, ∀ e ∈ t, e.2.Fits) :
    Fits (.tables elements)

/-! ## Bare words -/

theorem integer?_fits {cs : List Char} {n : Int} (h : Scalar.integer? cs = some n) :
    Scalar.fits n = true := by
  have hbased {base : Nat} {rest : List Char} (h : Scalar.based? base rest = some n) :
      Scalar.fits n = true :=
    (Option.filter_eq_some_iff.mp h).2
  have hdecimal {cs : List Char} (h : Scalar.decimal? cs = some n) : Scalar.fits n = true := by
    unfold Scalar.decimal? at h
    obtain ⟨ds, -, h⟩ := Option.bind_eq_some_iff.mp h
    dsimp only at h
    obtain ⟨hfits, h⟩ := Option.ite_none_right_eq_some.mp h
    cases h
    exact hfits
  unfold Scalar.integer? at h
  split at h
  · exact hbased h
  · exact hbased h
  · exact hbased h
  · exact hdecimal h

theorem ofBare?_fits {cs : List Char} {v : Value} (h : Value.ofBare? cs = some v) : v.Fits := by
  unfold Value.ofBare? at h
  split at h
  · cases h
    exact .boolean true
  split at h
  · cases h
    exact .boolean false
  split at h
  · next hn =>
    cases h
    exact .integer (integer?_fits hn)
  split at h
  · cases h
    exact .float _
  split at h
  · cases h
    exact .dateTime _
  · cases h

/-! ## Tables -/

/-- Every integer in the table fits 64 bits. -/
def Table.Fits (t : Table) : Prop :=
  ∀ e ∈ t, e.2.Fits

namespace Table

variable {t t' : Table} {name : String} {v : Value}

theorem fits_nil : Table.Fits [] :=
  fun _ he => absurd he List.not_mem_nil

theorem Fits.get? (h : t.Fits) (hv : t.get? name = some v) : v.Fits :=
  h _ (mem_of_lookup hv)

theorem Fits.put (h : t.Fits) (hv : v.Fits) : (t.put name v).Fits := by
  induction t with
  | nil => exact fun e he => by rw [List.mem_singleton.mp he]; exact hv
  | cons e t ih =>
    have htail := ih fun e he => h e (.tail _ he)
    unfold Table.put
    split
    · exact List.forall_mem_cons.mpr ⟨hv, fun e he => h e (.tail _ he)⟩
    · exact List.forall_mem_cons.mpr ⟨h _ (.head _), htail⟩

/-- A change at the end of a path keeps the integers of everything around it. -/
theorem within_fits {lead : Lead} {change : TableOrigin → Table → Option Table}
    (hchange : ∀ {origin t t'}, t.Fits → change origin t = some t' → t'.Fits) {path : List String} :
    ∀ {origin t t'}, t.Fits → within lead change path origin t = some t' → t'.Fits := by
  induction path with
  | nil => exact hchange
  | cons name rest ih =>
    intro origin t t' ht h
    unfold within at h
    split at h
    · obtain ⟨sub, hsub, rfl⟩ := Option.map_eq_some_iff.mp h
      exact ht.put (.table (ih fits_nil hsub))
    · next hget =>
      cases ht.get? hget with
      | table hentries =>
        split_ifs at h
        obtain ⟨sub, hsub, rfl⟩ := Option.map_eq_some_iff.mp h
        exact ht.put (.table (ih hentries hsub))
    · next elements hget =>
      cases ht.get? hget with
      | tables helements =>
        split at h
        · cases h
        · next last hlast =>
          obtain ⟨last', hsub, rfl⟩ := Option.map_eq_some_iff.mp h
          have hmem := List.mem_of_getLast? hlast
          refine ht.put (.tables fun t ht => ?_)
          rcases List.mem_append.mp ht with ht | ht
          · exact helements t (List.dropLast_subset _ ht)
          · rw [List.mem_singleton.mp ht]
            exact ih (helements last hmem) hsub
    · cases h

theorem assign_fits {p : Path} (ht : t.Fits) (hv : v.Fits) (h : t.assign p v = some t') :
    t'.Fits := by
  refine within_fits (fun {origin t t'} ht h => ?_) ht h
  split_ifs at h
  split at h
  · cases h
    exact ht.put hv
  · cases h

theorem openTable_fits {p : Path} (ht : t.Fits) (h : t.openTable p = some t') : t'.Fits := by
  refine within_fits (fun {_ t t'} ht h => ?_) ht h
  split at h
  · cases h
    exact ht.put (.table fits_nil)
  · next hget =>
    cases h
    cases ht.get? hget with
    | table hentries => exact ht.put (.table hentries)
  · cases h

theorem openElement_fits {p : Path} (ht : t.Fits) (h : t.openElement p = some t') : t'.Fits := by
  refine within_fits (fun {_ t t'} ht h => ?_) ht h
  have hnew (t : Table) (hmem : t ∈ ([[]] : List Table)) : t.Fits := by
    rw [List.mem_singleton.mp hmem]
    exact fits_nil
  split at h
  · cases h
    exact ht.put (.tables hnew)
  · next hget =>
    cases h
    cases ht.get? hget with
    | tables helements =>
      refine ht.put (.tables fun t ht => ?_)
      exact (List.mem_append.mp ht).elim (helements t) (hnew t)
  · cases h

end Table

/-- Every integer in a value that is set fits 64 bits. -/
def Statement.Fits : Statement → Prop
  | .header _ | .element _ => True
  | .assign _ v => v.Fits

theorem Draft.apply_fits {d d' : Draft} {s : Statement} (hd : d.root.Fits) (hs : s.Fits)
    (h : d.apply s = some d') : d'.root.Fits := by
  cases s with
  | header p =>
    obtain ⟨root, hroot, rfl⟩ := Option.map_eq_some_iff.mp h
    exact Table.openTable_fits hd hroot
  | element p =>
    obtain ⟨root, hroot, rfl⟩ := Option.map_eq_some_iff.mp h
    exact Table.openElement_fits hd hroot
  | assign p v =>
    obtain ⟨root, hroot, rfl⟩ := Option.map_eq_some_iff.mp h
    exact Table.within_fits (fun ht => Table.assign_fits ht hs) hd hroot

theorem Draft.foldlM_apply_fits {statements : List Statement} {d d' : Draft} (hd : d.root.Fits)
    (hs : ∀ s ∈ statements, s.Fits) (h : statements.foldlM Draft.apply d = some d') :
    d'.root.Fits := by
  induction statements generalizing d with
  | nil =>
    cases h
    exact hd
  | cons s statements ih =>
    rw [List.foldlM_cons] at h
    obtain ⟨next, hnext, h⟩ := Option.bind_eq_some_iff.mp h
    obtain ⟨hs, hrest⟩ := List.forall_mem_cons.mp hs
    exact ih (Draft.apply_fits hd hs hnext) hrest h

theorem ofStatements?_fits {statements : List Statement} {t : Table}
    (hs : ∀ s ∈ statements, s.Fits) (h : Table.ofStatements? statements = some t) : t.Fits := by
  obtain ⟨d, hd, rfl⟩ := Option.map_eq_some_iff.mp h
  exact Draft.foldlM_apply_fits Table.fits_nil hs hd

/-! ## The reader -/

namespace Reader

/-- Every integer that a frame has collected fits 64 bits. -/
def Frame.Fits : Frame → Prop
  | .line _ => True
  | .array items => ∀ v ∈ items, v.Fits
  | .table entries _ => entries.Fits

/-- Every integer that has been read fits 64 bits. -/
structure State.Fits (s : State) : Prop where
  stack : ∀ f ∈ s.stack, f.Fits
  out : ∀ st ∈ s.out, st.Fits

variable {s : State}

theorem fail_fits : State.fail.Fits :=
  ⟨fun _ h => absurd h List.not_mem_nil, fun _ h => absurd h List.not_mem_nil⟩

theorem State.Fits.to (h : s.Fits) (mode : Mode) : (s.to mode).Fits :=
  ⟨h.stack, h.out⟩

theorem deliver_fits {v : Value} (h : s.Fits) (hv : v.Fits) : (deliver s v).Fits := by
  obtain ⟨stack, mode, out⟩ := s
  unfold deliver
  split
  · exact ⟨fun _ hf => absurd hf List.not_mem_nil, List.forall_mem_cons.mpr ⟨hv, h.out⟩⟩
  · next heq =>
    subst heq
    obtain ⟨hitems, houter⟩ := List.forall_mem_cons.mp h.stack
    exact ⟨List.forall_mem_cons.mpr ⟨List.forall_mem_cons.mpr ⟨hv, hitems⟩, houter⟩, h.out⟩
  · next heq =>
    subst heq
    obtain ⟨hentries, houter⟩ := List.forall_mem_cons.mp h.stack
    split
    · next hassign =>
      exact ⟨List.forall_mem_cons.mpr ⟨Table.assign_fits hentries hv hassign, houter⟩, h.out⟩
    · exact fail_fits
  · exact fail_fits

theorem enter_fits {frame : Frame} {mode : Mode} (h : s.Fits) (hframe : frame.Fits) :
    (enter s frame mode).Fits := by
  unfold enter
  split
  · exact ⟨List.forall_mem_cons.mpr ⟨hframe, h.stack⟩, h.out⟩
  · exact fail_fits

theorem closeArray_fits (h : s.Fits) : (closeArray s).Fits := by
  obtain ⟨stack, mode, out⟩ := s
  unfold closeArray
  split
  · next heq =>
    subst heq
    obtain ⟨hitems, houter⟩ := List.forall_mem_cons.mp h.stack
    exact deliver_fits ⟨houter, h.out⟩ (.array fun v hv => hitems v (List.mem_reverse.mp hv))
  · exact fail_fits

theorem closeTable_fits (h : s.Fits) : (closeTable s).Fits := by
  obtain ⟨stack, mode, out⟩ := s
  unfold closeTable
  split
  · next heq =>
    subst heq
    obtain ⟨hentries, houter⟩ := List.forall_mem_cons.mp h.stack
    exact deliver_fits ⟨houter, h.out⟩ (.table hentries)
  · exact fail_fits

theorem stepValue_fits {x : Symbol} (h : s.Fits) : (stepValue s x).Fits := by
  unfold stepValue
  split
  · exact deliver_fits h (.text _)
  · exact fail_fits
  · split_ifs
    · exact enter_fits h fun _ hv => absurd hv List.not_mem_nil
    · exact enter_fits h Table.fits_nil
    · exact h.to _
    · exact fail_fits

theorem stepName_fits {place : Place} {parts : List String} {x : Symbol} (h : s.Fits) :
    (stepName s place parts x).Fits := by
  unfold stepName
  split
  · exact h.to _
  · split
    · exact h.to _
    · exact fail_fits
  · exact fail_fits

theorem endName_fits {place : Place} {path : Path} {c : Char} (h : s.Fits) :
    (endName s place path c).Fits := by
  obtain ⟨stack, mode, out⟩ := s
  have hnone (f : Frame) (hf : f ∈ []) : f.Fits := absurd hf List.not_mem_nil
  unfold endName
  split
  · split
    · exact ⟨List.forall_mem_cons.mpr ⟨trivial, hnone⟩, h.out⟩
    · exact fail_fits
  · split
    · next heq =>
      subst heq
      split
      · obtain ⟨hentries, houter⟩ := List.forall_mem_cons.mp h.stack
        exact ⟨List.forall_mem_cons.mpr ⟨hentries, houter⟩, h.out⟩
      · exact fail_fits
    · exact fail_fits
  · split
    · exact ⟨hnone, List.forall_mem_cons.mpr ⟨trivial, h.out⟩⟩
    · exact fail_fits
  · split
    · exact h.to _
    · exact fail_fits

theorem stepAfterName_fits {place : Place} {parts : List String} {x : Symbol} (h : s.Fits) :
    (stepAfterName s place parts x).Fits := by
  unfold stepAfterName
  split
  · split_ifs
    · exact h.to _
    · exact endName_fits h
    · exact fail_fits
  · exact fail_fits

theorem stepAfterValue_fits {x : Symbol} (h : s.Fits) : (stepAfterValue s x).Fits := by
  unfold stepAfterValue
  split
  · exact h
  · exact h.to _
  · exact closeArray_fits h
  · exact h.to _
  · exact closeTable_fits h
  · exact fail_fits

theorem stepPlain_fits {x : Symbol} (h : s.Fits) : (stepPlain s x).Fits := by
  unfold stepPlain
  -- one case for each mode, in the order of the definition
  split
  · split_ifs
    · exact h
    · exact h.to _
    · exact stepName_fits h
  · split_ifs
    · exact h.to _
    · exact h.to _
    · exact stepName_fits h
  · split_ifs
    · exact h
    · exact stepName_fits h
  · dsimp only
    split
    · split_ifs
      · exact h.to _
      · exact h.to _
      · exact stepAfterName_fits h
    · exact fail_fits
  · split_ifs
    · exact h
    · exact stepAfterName_fits h
  · split_ifs
    · exact ⟨fun _ hf => absurd hf List.not_mem_nil, List.forall_mem_cons.mpr ⟨trivial, h.out⟩⟩
    · exact fail_fits
  · split_ifs
    · exact h
    · exact h.to _
    · exact fail_fits
  · split_ifs
    · exact h
    · exact stepValue_fits h
  · split_ifs
    · exact h
    · exact closeArray_fits h
    · exact stepValue_fits h
  · split_ifs
    · exact h
    · exact closeTable_fits h
    · exact stepName_fits h
  · split_ifs
    · exact h
    · exact stepAfterValue_fits h
  · exact fail_fits
  · exact fail_fits
  · exact fail_fits

theorem endBare_fits {cs : List Char} (h : s.Fits) : (endBare s cs).Fits := by
  unfold endBare
  split
  · next hv => exact deliver_fits h (ofBare?_fits hv)
  · exact fail_fits

theorem step_fits {x : Symbol} (h : s.Fits) : (step s x).Fits := by
  unfold step
  split
  · split_ifs
    · exact h.to _
    · exact h.to _
    · exact stepPlain_fits (endBare_fits h)
  · exact stepPlain_fits (endBare_fits h)
  · split_ifs
    · exact h.to _
    · exact stepPlain_fits (endBare_fits h)
  · exact stepPlain_fits (endBare_fits h)
  · exact stepPlain_fits h

theorem foldl_step_fits {symbols : List Symbol} (h : s.Fits) : (symbols.foldl step s).Fits := by
  induction symbols generalizing s with
  | nil => exact h
  | cons x symbols ih => exact ih (step_fits h)

theorem finish_fits {statements : List Statement} (h : s.Fits)
    (hout : finish s = some statements) : ∀ st ∈ statements, st.Fits := by
  unfold finish at hout
  dsimp only at hout
  split at hout
  case h_3 => cases hout
  -- a bare word that stands at the end is a value still to be delivered
  all_goals
    cases hout
    split
    · exact (endBare_fits h).out
    · exact (endBare_fits h).out
    · exact h.out

end Reader

/-- Every integer in a document fits 64 bits. -/
theorem read_fits {text : String} {t : Table} (h : read text = some t) : t.Fits := by
  unfold read at h
  obtain ⟨symbols, -, h⟩ := Option.bind_eq_some_iff.mp h
  obtain ⟨statements, hstatements, ht⟩ := Option.bind_eq_some_iff.mp h
  obtain ⟨out, hout, rfl⟩ := Option.map_eq_some_iff.mp hstatements
  have hstart : Reader.start.Fits :=
    ⟨fun _ hf => absurd hf List.not_mem_nil, fun _ hs => absurd hs List.not_mem_nil⟩
  have hfits := Reader.finish_fits (Reader.foldl_step_fits hstart) hout
  exact ofStatements?_fits (fun s hs => hfits s (List.mem_reverse.mp hs)) ht

end Courier.Toml
