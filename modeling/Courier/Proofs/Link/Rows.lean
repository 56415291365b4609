import Courier.Proofs.Link.Destinations
import Courier.Store.Links

/-!
# What the stored links say about a device

The counterparts of what the link table shows after a change: `pairs_upsert`, `pairs_replace` and
`pairs_delete` say what each way of writing the stored links does to the pairs.
-/

namespace Courier

namespace LinkRows

variable {rows : LinkRows} {l : DeviceLink} {ls : List DeviceLink} {m s k : Identity}

theorem merged_matches {old new : DeviceLink} : (merged old new).Matches m s ↔ new.Matches m s :=
  Iff.rfl

theorem pairs_upsert : Pairs (rows.upsert l) m s ↔ Pairs rows m s ∨ l.Matches m s := by
  unfold upsert
  split
  · next hany =>
    obtain ⟨r, hr, hsame⟩ := List.any_eq_true.mp hany
    have hsame : l.SamePair r := of_decide_eq_true hsame
    constructor
    · rintro ⟨x, hx, hp⟩
      obtain ⟨y, hy, rfl⟩ := List.mem_map.mp hx
      split at hp
      · exact .inr (merged_matches.mp hp)
      · exact .inl ⟨y, hy, hp⟩
    · have hnew (hl : l.Matches m s) :
          Pairs (rows.map fun r => if l.SamePair r then merged r l else r) m s := by
        refine ⟨_, List.mem_map_of_mem hr, ?_⟩
        rw [if_pos hsame]
        exact merged_matches.mpr hl
      rintro (⟨x, hx, hp⟩ | hl)
      · by_cases hx' : l.SamePair x
        · exact hnew (hx'.trans hp)
        · refine ⟨_, List.mem_map_of_mem hx, ?_⟩
          rwa [if_neg hx']
      · exact hnew hl
  · rw [pairs_append, pairs_cons, or_iff_left pairs_nil.mp]

theorem pairs_foldl_upsert : Pairs (ls.foldl upsert rows) m s ↔ Pairs rows m s ∨ Pairs ls m s := by
  induction ls generalizing rows with
  | nil => simp [Pairs]
  | cons l ls ih => rw [List.foldl_cons, ih, pairs_upsert, pairs_cons, or_assoc]

theorem pairs_replace :
    Pairs (rows.replace k ls) m s ↔ if m = k then Pairs ls m s else Pairs rows m s := by
  unfold replace
  rw [pairs_foldl_upsert]
  split
  · next hm =>
    subst hm
    have hold : ¬ Pairs (rows.filter (·.master.identity ≠ m)) m s := by
      rintro ⟨x, hx, hp⟩
      have := (List.mem_filter.mp hx).2
      simp [(DeviceLink.matches_iff.mp hp).1] at this
    rw [or_iff_right hold, pairs_filter]
    rintro x - hp
    simp [(DeviceLink.matches_iff.mp hp).1]
  · next hm =>
    have hnew : ¬ Pairs (ls.filter (·.master.identity = k)) m s := by
      rintro ⟨x, hx, hp⟩
      have := (List.mem_filter.mp hx).2
      simp [(DeviceLink.matches_iff.mp hp).1, hm] at this
    rw [or_iff_left hnew, pairs_filter]
    rintro x - hp
    simp [(DeviceLink.matches_iff.mp hp).1, hm]

theorem pairs_delete :
    Pairs (rows.delete l.master.identity l.slave.identity).2 m s ↔
      Pairs rows m s ∧ ¬ l.Matches m s := by
  constructor
  · rintro ⟨x, hx, hp⟩
    obtain ⟨hx, hne⟩ := List.mem_filter.mp hx
    exact ⟨⟨x, hx, hp⟩, fun hl => of_decide_eq_true hne (hp.trans hl.symm)⟩
  · rintro ⟨⟨x, hx, hp⟩, hl⟩
    exact ⟨x, List.mem_filter.mpr ⟨hx, decide_eq_true fun e => hl (e.symm.trans hp)⟩, hp⟩

theorem pairs_sorted : Pairs rows.sorted m s ↔ Pairs rows m s := by
  unfold sorted Pairs
  simp only [List.mem_mergeSort]

end LinkRows

end Courier
