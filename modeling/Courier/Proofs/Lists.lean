import Mathlib.Data.List.Sort
import Mathlib.Data.String.Basic

/-!
# Lists as tables

* `lookup_filter_ne`, `lookup_of_mem`: association lists. With each key once, an entry is the one
  that is looked up.
* `mem_eraseReps`, `eraseReps_strict`: a list in order, with each name once.
* `find?_key_iff`: with each key once, the element of a key is the one that is found.
* `eraseDups_concat`: one more name at the end of those that came first.
* `mem_of_mapM_ok`, `mapM_eq_ok_map`, `exists_mapM_ok`: what a list of readings read.
* `filter_not_map_ite`: a change of the elements of one kind, seen by the others.
* `exists_of_forall₂`: what an element is paired with.
-/

namespace Courier

/-! ## Association lists -/

section Assoc

variable {κ α : Type} [DecidableEq κ] {k m : κ}

theorem lookup_filter_ne (l : List (κ × α)) (h : k ≠ m) :
    (l.filter (·.1 ≠ m)).lookup k = l.lookup k := by
  induction l with
  | nil => rfl
  | cons g l ih =>
    by_cases hg : g.1 = m
    · have hk : (k == g.1) = false := by simpa [hg] using h
      rw [List.filter_cons_of_neg (by simp [hg]), ih, List.lookup_cons, hk]
    · rw [List.filter_cons_of_pos (by simpa using hg), List.lookup_cons, List.lookup_cons, ih]

theorem lookup_filter_self (l : List (κ × α)) : (l.filter (·.1 ≠ m)).lookup m = none := by
  rw [List.lookup_eq_none_iff]
  intro g hg
  have := (List.mem_filter.mp hg).2
  simp only [decide_eq_true_eq] at this
  simpa using fun h => this h.symm

theorem mem_of_lookup {l : List (κ × α)} {a : α} (h : l.lookup k = some a) : (k, a) ∈ l := by
  obtain ⟨l₁, l₂, heq, -⟩ := List.lookup_eq_some_iff.mp h
  rw [heq]
  simp

theorem lookup_of_mem {l : List (κ × α)} (hn : (l.map (·.1)).Nodup) {g : κ × α} (hg : g ∈ l) :
    l.lookup g.1 = some g.2 := by
  induction l with
  | nil => simp at hg
  | cons g' l ih =>
    rw [List.map_cons, List.nodup_cons] at hn
    rcases List.mem_cons.mp hg with rfl | hg
    · exact List.lookup_cons_self
    · have hne : g.1 ≠ g'.1 := fun e => hn.1 (e ▸ List.mem_map_of_mem hg)
      rw [List.lookup_cons, show (g.1 == g'.1) = false by simpa using hne]
      exact ih hn.2 hg

end Assoc

/-! ## Lists with a key -/

section Keys

variable {α κ : Type} {key : α → κ} {l : List α} {a : α} {k : κ}

theorem find?_key_iff [DecidableEq κ] (hn : (l.map key).Nodup) :
    l.find? (fun x => key x = k) = some a ↔ a ∈ l ∧ key a = k := by
  constructor
  · exact fun h => ⟨List.mem_of_find?_eq_some h, by simpa using List.find?_some h⟩
  · rintro ⟨ha, rfl⟩
    obtain ⟨b, hb⟩ : ∃ b, l.find? (fun x => key x = key a) = some b :=
      Option.isSome_iff_exists.mp (List.find?_isSome.mpr ⟨a, ha, by simp⟩)
    have hkey : key b = key a := by simpa using List.find?_some hb
    rw [hb, List.inj_on_of_nodup_map hn (List.mem_of_find?_eq_some hb) ha hkey]

theorem eq_singleton_of_nodup (hn : l.Nodup) (ha : a ∈ l) (hall : ∀ b ∈ l, b = a) : l = [a] := by
  obtain ⟨n, rfl⟩ : ∃ n, l = List.replicate n a := ⟨l.length, List.eq_replicate_of_mem hall⟩
  have hle : n ≤ 1 := List.nodup_replicate.mp hn
  obtain rfl : n = 1 := by
    have := (List.mem_replicate.mp ha).1
    omega
  rfl

end Keys

/-! ## Lists in order -/

/-- The loop of `List.eraseReps` keeps `a` and goes on with what differs from it. -/
theorem eraseReps_loop_eq (names acc : List String) (a : String) :
    List.eraseRepsBy.loop (· == ·) a names acc =
      acc.reverse ++ List.eraseRepsBy.loop (· == ·) a names [] := by
  induction names generalizing a acc with
  | nil => simp [List.eraseRepsBy.loop]
  | cons b names ih =>
    simp only [List.eraseRepsBy.loop]
    split
    · exact ih acc a
    · rw [ih (a :: acc) b, ih [a] b]
      simp

theorem eraseReps_cons_cons (a b : String) (names : List String) :
    (a :: b :: names).eraseReps =
      if a = b then (b :: names).eraseReps else a :: (b :: names).eraseReps := by
  simp only [List.eraseReps, List.eraseRepsBy, List.eraseRepsBy.loop]
  by_cases h : a = b
  · simp [h]
  · rw [if_neg h, show (a == b) = false by simpa using h]
    simp only
    rw [eraseReps_loop_eq]
    simp

@[simp] theorem mem_eraseReps {x : String} {names : List String} :
    x ∈ names.eraseReps ↔ x ∈ names := by
  induction names with
  | nil => simp [List.eraseReps, List.eraseRepsBy]
  | cons a names ih =>
    cases names with
    | nil => simp [List.eraseReps, List.eraseRepsBy, List.eraseRepsBy.loop]
    | cons b names =>
      rw [eraseReps_cons_cons]
      split
      · next h => subst h; rw [ih]; simp
      · rw [List.mem_cons, ih, List.mem_cons (a := x) (b := a)]

theorem eraseReps_strict {names : List String} (h : names.Pairwise (· ≤ ·)) :
    names.eraseReps.Pairwise (· < ·) := by
  induction names with
  | nil => simp [List.eraseReps, List.eraseRepsBy]
  | cons a names ih =>
    cases names with
    | nil => simp [List.eraseReps, List.eraseRepsBy, List.eraseRepsBy.loop]
    | cons b names =>
      obtain ⟨ha, hrest⟩ := List.pairwise_cons.mp h
      rw [eraseReps_cons_cons]
      split
      · exact ih hrest
      · next hne =>
        refine List.pairwise_cons.mpr ⟨fun x hx => ?_, ih hrest⟩
        rw [mem_eraseReps] at hx
        have hab : a < b := lt_of_le_of_ne (ha b (by simp)) hne
        rcases List.mem_cons.mp hx with rfl | hx
        · exact hab
        · exact lt_of_lt_of_le hab ((List.pairwise_cons.mp hrest).1 x hx)

/-- A name that is in the list already comes first there. -/
theorem eraseDups_concat {α : Type} [DecidableEq α] (l : List α) (a : α) :
    (l ++ [a]).eraseDups = if a ∈ l then l.eraseDups else l.eraseDups ++ [a] := by
  rw [List.eraseDups_append]
  split
  · next h => simp [List.removeAll, h]
  · next h => simp [List.removeAll, h, List.eraseDups_cons]

/-! ## Readings -/

/-- What is not changed stays, and what is changed stays of its kind. -/
theorem filter_not_map_ite {α : Type} {p : α → Prop} [DecidablePred p] {f : α → α}
    (hf : ∀ a, p a → p (f a)) (l : List α) :
    (l.map fun a => if p a then f a else a).filter (¬ p ·) = l.filter (¬ p ·) := by
  induction l with
  | nil => rfl
  | cons a l ih =>
    rw [List.map_cons]
    by_cases ha : p a
    · rw [if_pos ha, List.filter_cons_of_neg (by simpa using hf a ha),
        List.filter_cons_of_neg (by simpa using ha), ih]
    · rw [if_neg ha, List.filter_cons_of_pos (by simpa using ha),
        List.filter_cons_of_pos (by simpa using ha), ih]

theorem mapM_eq_ok_map {γ δ ε : Type} {g : γ → Except ε δ} {f : γ → δ} :
    ∀ {l : List γ}, (∀ a ∈ l, g a = .ok (f a)) → l.mapM g = .ok (l.map f)
  | [], _ => rfl
  | a :: l, h => by
    rw [List.mapM_cons, h a (.head _), mapM_eq_ok_map fun b hb => h b (.tail _ hb)]
    rfl

theorem mem_of_mapM_ok {γ δ ε : Type} {g : γ → Except ε δ} :
    ∀ {l : List γ} {l' : List δ}, l.mapM g = .ok l' → ∀ b ∈ l', ∃ a ∈ l, g a = .ok b
  | [], l', h, b, hb => by
    cases h
    cases hb
  | a :: l, l', h, b, hb => by
    rw [List.mapM_cons] at h
    cases hg : g a with
    | error e => simp [hg, Bind.bind, Except.bind] at h
    | ok b' =>
      cases hl : l.mapM g with
      | error e => simp [hg, hl, Bind.bind, Except.bind] at h
      | ok rest =>
        simp only [hg, hl, Bind.bind, Except.bind, Pure.pure, Except.pure, Except.ok.injEq] at h
        subst h
        rcases List.mem_cons.mp hb with rfl | hb
        · exact ⟨a, .head _, hg⟩
        · obtain ⟨a', ha', h'⟩ := mem_of_mapM_ok hl b hb
          exact ⟨a', .tail _ ha', h'⟩

theorem exists_mapM_ok {γ δ ε : Type} {g : γ → Except ε δ} :
    ∀ {l : List γ}, (∀ a ∈ l, ∃ b, g a = .ok b) →
      ∃ l', l.mapM g = .ok l' ∧ List.Forall₂ (fun a b => g a = .ok b) l l'
  | [], _ => ⟨[], rfl, .nil⟩
  | a :: l, h => by
    obtain ⟨b, hb⟩ := h a (.head _)
    obtain ⟨l', hl, hpairs⟩ := exists_mapM_ok fun c hc => h c (.tail _ hc)
    exact ⟨b :: l', by rw [List.mapM_cons, hb, hl]; rfl, .cons hb hpairs⟩

/-! ## Pairings -/

/-- Each element of the second list is paired with one of the first. -/
theorem exists_of_forall₂ {γ δ : Type} {R : γ → δ → Prop} {l : List γ} {l' : List δ}
    (h : List.Forall₂ R l l') : ∀ b ∈ l', ∃ a ∈ l, R a b := by
  induction h with
  | nil => simp
  | cons hab _ ih =>
    intro b hb
    rcases List.mem_cons.mp hb with rfl | hb
    · exact ⟨_, .head _, hab⟩
    · obtain ⟨a, ha, hR⟩ := ih b hb
      exact ⟨a, .tail _ ha, hR⟩

end Courier
