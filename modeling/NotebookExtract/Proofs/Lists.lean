/-!
# Passes over lists that may fail, and joined lists

A pass over a list may fail at an item: `mapM` then fails as a whole, `filterMap` leaves the
item out, and `findSome?` goes on to the next one. Lists that are joined by a separator and
cut at it are texts and their lines, or paths and their pieces.
-/

namespace NotebookExtract.Lists

variable {α β γ : Type}

theorem mapM_eq_some_iff {f : α → Option β} {xs : List α} {ys : List β} :
    xs.mapM f = some ys ↔ (∀ x ∈ xs, (f x).isSome = true) ∧ ys = xs.filterMap f := by
  induction xs generalizing ys with
  | nil => exact ⟨fun h => ⟨by simp, (Option.some.inj h).symm⟩, fun h => by rw [h.2]; rfl⟩
  | cons x xs ih =>
    rw [List.mapM_cons, List.forall_mem_cons]
    cases hx : f x with
    | none => simp
    | some y =>
      simp only [Option.bind_eq_bind, Option.bind_some, Option.bind_eq_some_iff, ih,
        Option.isSome_some, true_and, List.filterMap_cons_some hx]
      constructor
      · rintro ⟨zs, ⟨hall, rfl⟩, hys⟩
        cases hys
        exact ⟨hall, rfl⟩
      · rintro ⟨hall, rfl⟩
        exact ⟨_, ⟨hall, rfl⟩, rfl⟩

/-- A list that holds no failure is given by what it holds. -/
theorem mapM_id_eq_some_iff {xs : List (Option α)} {ys : List α} :
    xs.mapM id = some ys ↔ xs = ys.map some := by
  induction xs generalizing ys with
  | nil => cases ys <;> simp
  | cons x xs ih =>
    rw [List.mapM_cons]
    cases x with
    | none => cases ys <;> simp
    | some y =>
      cases ys with
      | nil => simp [Option.bind_eq_some_iff]
      | cons z zs =>
        simp only [id_eq, Option.pure_def, Option.bind_eq_bind, Option.bind_some,
          Option.bind_eq_some_iff, Option.some.injEq, List.cons.injEq, List.map_cons]
        constructor
        · rintro ⟨rest, hrest, rfl, rfl⟩
          exact ⟨rfl, ih.mp hrest⟩
        · rintro ⟨rfl, hrest⟩
          exact ⟨zs, ih.mpr hrest, rfl, rfl⟩

/-- Two passes over a list that may both fail. -/
theorem mapM_bind (f : α → Option β) (g : β → Option γ) (xs : List α) :
    (xs.mapM fun x => (f x).bind g) = (xs.mapM f).bind fun ys => ys.mapM g := by
  induction xs with
  | nil => rfl
  | cons x xs ih =>
    rw [List.mapM_cons, List.mapM_cons, ih]
    cases f x with
    | none => rfl
    | some y =>
      cases xs.mapM f with
      | none => cases hy : g y <;> simp [hy]
      | some ys =>
        have hcons : (y :: ys).mapM g = (g y).bind fun z => (ys.mapM g).bind fun zs =>
          some (z :: zs) := List.mapM_cons
        exact hcons.symm

/-- To search what a pass has left is to search the list itself. -/
theorem findSome?_filterMap {f : α → Option β} {g : β → Option γ} {h : α → Option γ}
    {xs : List α} (heq : ∀ x ∈ xs, (f x).bind g = h x) :
    (xs.filterMap f).findSome? g = xs.findSome? h := by
  induction xs with
  | nil => rfl
  | cons x xs ih =>
    have hrest : (xs.filterMap f).findSome? g = xs.findSome? h :=
      ih fun y hy => heq y (List.mem_cons_of_mem _ hy)
    rw [List.findSome?_cons, ← heq x List.mem_cons_self]
    cases hx : f x with
    | none => simp [hx, hrest]
    | some y => simp [hx, List.findSome?_cons, hrest]

/-- No piece between separators holds the separator. -/
theorem not_mem_of_mem_splitOn [BEq α] [LawfulBEq α] {sep : α} {xs piece : List α}
    (h : piece ∈ xs.splitOn sep) : sep ∉ piece := by
  induction xs generalizing piece with
  | nil =>
    have hpiece : piece = [] := by simpa using h
    simp [hpiece]
  | cons x rest ih =>
    obtain ⟨first, later, hsplit⟩ := List.exists_cons_of_ne_nil (List.splitOn_ne_nil sep rest)
    rw [List.splitOn_cons_eq_if_modifyHead, hsplit] at h
    rw [hsplit] at ih
    by_cases hx : x = sep
    · have hcut : piece = [] ∨ piece ∈ first :: later := by simpa [hx] using h
      rcases hcut with rfl | hrest
      · simp
      · exact ih hrest
    · -- the item joins the first piece of the rest
      have hjoined : piece = x :: first ∨ piece ∈ later := by simpa [hx] using h
      rcases hjoined with rfl | hlater
      · have hfirst : sep ∉ first := ih List.mem_cons_self
        simp [hfirst, Ne.symm hx]
      · exact ih (List.mem_cons_of_mem first hlater)

/-- Two lists of pieces, joined one after the other. -/
theorem intercalate_append (sep : List α) {as bs : List (List α)} (ha : as ≠ []) (hb : bs ≠ []) :
    sep.intercalate (as ++ bs) = sep.intercalate as ++ (sep ++ sep.intercalate bs) := by
  induction as with
  | nil => exact absurd rfl ha
  | cons a as ih =>
    cases as with
    | nil => simp [List.intercalate_cons_of_ne_nil hb]
    | cons b as =>
      have hrec := ih (by simp)
      simp only [List.cons_append, List.intercalate_cons_cons] at hrec ⊢
      simp [hrec]

end NotebookExtract.Lists
