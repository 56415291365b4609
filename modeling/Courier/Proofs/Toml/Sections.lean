import Courier.Toml.Table

/-!
# Documents of sections

A document may consist of sections: headers of one name each, with settings of one name each under
them (`Section.statements`). If no name comes twice, its tables are the sections as they stand
(`ofStatements?_sections`). While such a document is being read, the section that was opened last is
the last table of its root.
-/

namespace Courier.Toml

namespace Table

variable {t : Table} {name : String} {v w : Value}

theorem get?_eq_none (h : name ∉ t.map Prod.fst) : t.get? name = none := by
  unfold get?
  rw [List.lookup_eq_none_iff]
  intro p hp
  simpa using fun heq : name = p.1 => h (heq ▸ List.mem_map_of_mem hp)

theorem get?_last (h : name ∉ t.map Prod.fst) : get? (t ++ [(name, v)]) name = some v := by
  have hnone : List.lookup name t = none := get?_eq_none h
  unfold get?
  rw [List.lookup_append, hnone]
  simp

/-- A new name is put last. -/
theorem put_new (h : name ∉ t.map Prod.fst) : t.put name v = t ++ [(name, v)] := by
  induction t with
  | nil => rfl
  | cons e t ih =>
    rw [List.map_cons, List.mem_cons, not_or] at h
    rw [put, if_neg (Ne.symm h.1), ih h.2]
    rfl

theorem put_last (h : name ∉ t.map Prod.fst) :
    put (t ++ [(name, w)]) name v = t ++ [(name, v)] := by
  induction t with
  | nil => exact if_pos rfl
  | cons e t ih =>
    rw [List.map_cons, List.mem_cons, not_or] at h
    rw [List.cons_append, put, if_neg (Ne.symm h.1), ih h.2]
    rfl

end Table

/-- A section: its name and its settings. -/
abbrev Section := String × List (String × Value)

/-- The statements that a section is written with. -/
def Section.statements (s : Section) : List Statement :=
  .header ⟨[], s.1⟩ :: s.2.map fun e => .assign ⟨[], e.1⟩ e.2

/-- The table that a section makes. -/
def Section.table (s : Section) : String × Value :=
  (s.1, .table .header s.2)

section Drafts

variable {done : Table} {name : String} {entries : Table} {current : List String}

theorem apply_header (h : name ∉ done.map Prod.fst) :
    Draft.apply ⟨done, current⟩ (.header ⟨[], name⟩) =
      some ⟨done ++ [Section.table (name, [])], [name]⟩ := by
  simp only [Draft.apply, Table.openTable, Table.within, Table.get?_eq_none h, Table.put_new h]
  rfl

theorem apply_assign {key : String} {v : Value} (h : name ∉ done.map Prod.fst)
    (hkey : key ∉ entries.map Prod.fst) :
    Draft.apply ⟨done ++ [Section.table (name, entries)], [name]⟩ (.assign ⟨[], key⟩ v) =
      some ⟨done ++ [Section.table (name, entries ++ [(key, v)])], [name]⟩ := by
  have hset : Table.assign entries ⟨[], key⟩ v = some (entries ++ [(key, v)]) := by
    simp [Table.assign, Table.within, Table.get?_eq_none hkey, Table.put_new hkey]
  unfold Draft.apply Section.table
  simp only [Table.within, Table.get?_last h]
  rw [if_pos (show Lead.header.passes .header = true from rfl), hset, Option.map_some,
    Option.map_some, Table.put_last h]

/-- The settings of a section come into its table one after the other. -/
theorem foldlM_assign {rest : List (String × Value)} (h : name ∉ done.map Prod.fst)
    (hkeys : ((entries ++ rest).map Prod.fst).Nodup) :
    (rest.map fun e => Statement.assign ⟨[], e.1⟩ e.2).foldlM Draft.apply
        ⟨done ++ [Section.table (name, entries)], [name]⟩ =
      some ⟨done ++ [Section.table (name, entries ++ rest)], [name]⟩ := by
  induction rest generalizing entries with
  | nil => simp
  | cons e rest ih =>
    have hkey : e.1 ∉ entries.map Prod.fst := by
      rw [List.map_append, List.nodup_append] at hkeys
      exact fun hmem => hkeys.2.2 _ hmem _ (.head _) rfl
    rw [List.map_cons, List.foldlM_cons, apply_assign h hkey]
    have hrest := @ih (entries ++ [e]) (by simpa using hkeys)
    simpa using hrest

/-- The sections of a document become its tables one after the other. -/
theorem foldlM_statements {sections : List Section}
    (hnames : ((done ++ sections.map Section.table).map Prod.fst).Nodup)
    (hkeys : ∀ s ∈ sections, (s.2.map Prod.fst).Nodup) :
    ((sections.flatMap Section.statements).foldlM Draft.apply ⟨done, current⟩).map (·.root) =
      some (done ++ sections.map Section.table) := by
  induction sections generalizing done current with
  | nil => simp
  | cons s sections ih =>
    have hname : s.1 ∉ done.map Prod.fst := by
      rw [List.map_append, List.nodup_append] at hnames
      exact fun hmem => hnames.2.2 _ hmem _ (.head _) rfl
    have hsection : s.statements.foldlM Draft.apply ⟨done, current⟩ =
        some ⟨done ++ [s.table], [s.1]⟩ := by
      unfold Section.statements
      rw [List.foldlM_cons, apply_header hname]
      exact foldlM_assign hname (hkeys s (.head _))
    rw [List.flatMap_cons, List.foldlM_append, hsection]
    have hrest := @ih (done ++ [s.table]) [s.1] (by simpa using hnames)
      fun s hs => hkeys s (.tail _ hs)
    simpa using hrest

end Drafts

/-- A document of sections makes the tables of the sections. -/
theorem ofStatements?_sections {sections : List Section} (hnames : (sections.map Prod.fst).Nodup)
    (hkeys : ∀ s ∈ sections, (s.2.map Prod.fst).Nodup) :
    Table.ofStatements? (sections.flatMap Section.statements) =
      some (sections.map Section.table) := by
  unfold Table.ofStatements? Draft.empty
  rw [foldlM_statements _ hkeys, List.nil_append]
  rw [List.nil_append, List.map_map]
  exact hnames

end Courier.Toml
