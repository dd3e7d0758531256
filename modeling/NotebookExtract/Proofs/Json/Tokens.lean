import NotebookExtract.Proofs.Json.Grammar

/-!
# Tokens

What the small readers take off a text, against the grammar. Faults are left
aside: `run?` is a reader whose failures all look alike. A reader that takes one
token is pinned down by one equivalence; one that looks ahead has a statement for
each direction, what it does on a text of the grammar and what a success says
about the text.
-/

namespace NotebookExtract.Json

namespace Reader

variable {α β : Type}

/-! ## Runs without the kind of fault -/

/-- The outcome of a reader, whatever the fault if it fails. -/
def run? (r : Reader α) (s : Text) : Option (α × Text) := (r s).toOption

@[simp] theorem run?_pure (x : α) (s : Text) : (pure x : Reader α).run? s = some (x, s) := rfl

@[simp] theorem run?_bind (r : Reader α) (k : α → Reader β) (s : Text) :
    (r >>= k).run? s = (r.run? s).bind fun out => (k out.1).run? out.2 := by
  show Except.toOption (Except.bind (r s) fun out => k out.1 out.2) = _
  unfold run?
  cases r s <;> rfl

@[simp] theorem run?_map (f : α → β) (r : Reader α) (s : Text) :
    (f <$> r).run? s = (r.run? s).map fun out => (f out.1, out.2) := by
  show Except.toOption (Except.bind (r s) fun out => .ok (f out.1, out.2)) = _
  unfold run?
  cases r s <;> rfl

@[simp] theorem run?_throw (e : Fault) (s : Text) : (throw e : Reader α).run? s = none := rfl

@[simp] theorem run?_cutShort (s : Text) : (cutShort : Reader α).run? s = none := rfl

@[simp] theorem run?_malformed (s : Text) : (malformed : Reader α).run? s = none := rfl

@[simp] theorem run?_misfit (why : Misfit) (s : Text) : (misfit why : Reader α).run? s = none := rfl

@[simp] theorem run?_peek (s : Text) : peek.run? s = some (s.head?, s) := rfl

@[simp] theorem run?_advance (s : Text) : advance.run? s = some ((), s.drop 1) := rfl

@[simp] theorem run?_rounds (s : Text) : rounds.run? s = some (s.length + 1, s) := rfl

@[simp] theorem run?_takeRun (p : Char → Bool) (s : Text) :
    (takeRun p).run? s = some (s.takeWhile p, s.dropWhile p) := rfl

/-! ## Blanks -/

variable {b b' s rest : Text} {c : Char}

theorem run?_peekToken (s : Text) :
    peekToken.run? s = some ((s.dropWhile isSpace).head?, s.dropWhile isSpace) := rfl

/-- Looking for a token passes over the blanks before it. -/
theorem run?_peekToken_cons (hb : IsBlank b) (hc : isSpace c = false) (s : Text) :
    peekToken.run? (b ++ c :: s) = some (some c, c :: s) := by
  rw [run?_peekToken, List.dropWhile_append_of_pos (by simpa [IsBlank] using hb)]
  simp [hc]

/-- What stands before the next token is blank. -/
theorem exists_blank (s : Text) : ∃ b, IsBlank b ∧ s = b ++ s.dropWhile isSpace :=
  ⟨s.takeWhile isSpace, List.all_takeWhile, List.takeWhile_append_dropWhile.symm⟩

/-! ## Words and single tokens -/

/-- A word is read exactly where it stands. -/
theorem run?_word_eq_some_iff {w : Text} :
    (word w).run? s = some ((), rest) ↔ s = w ++ rest := by
  induction w generalizing s with
  | nil => simp [word]
  | cons c ws ih =>
    cases s with
    | nil =>
      constructor
      · intro h
        cases h
      · intro h
        cases h
    | cons d s =>
      by_cases hcd : d = c
      · have hrun : (word (c :: ws)).run? (d :: s) = (word ws).run? s := by
          show Except.toOption (if d = c then word ws s else .error .malformed) = _
          rw [if_pos hcd]
          rfl
        rw [hrun, ih]
        simp [hcd]
      · have hrun : (word (c :: ws)).run? (d :: s) = none := by
          show Except.toOption (if d = c then word ws s else .error .malformed) = _
          rw [if_neg hcd]
          rfl
        simp [hrun, hcd]

theorem run?_word (w s : Text) : (word w).run? (w ++ s) = some ((), s) :=
  run?_word_eq_some_iff.mpr rfl

theorem run?_word_eq_none {w : Text} (h : ∀ rest, s ≠ w ++ rest) : (word w).run? s = none := by
  cases hrun : (word w).run? s with
  | none => rfl
  | some out => exact absurd (run?_word_eq_some_iff.mp hrun) (h out.2)

/-- A reader that passes over blanks and one character that is no blank. -/
def IsToken (c : Char) (r : Reader Unit) : Prop :=
  ∀ s rest, r.run? s = some ((), rest) ↔ ∃ b, IsBlank b ∧ s = b ++ c :: rest

/-- A reader that looks for a token and goes on only if it is the right one. -/
theorem isToken_of_peek {next : Option Char → Reader Unit} (hc : isSpace c = false)
    (hgo : ∀ t, (next (some c)).run? (c :: t) = some ((), t))
    (hstop : ∀ found t, found ≠ some c → (next found).run? t = none) :
    IsToken c (peekToken >>= next) := by
  intro s rest
  rw [run?_bind, run?_peekToken, Option.bind_some]
  constructor
  · intro hrun
    obtain ⟨b, hb, hs⟩ := exists_blank s
    by_cases hhead : (s.dropWhile isSpace).head? = some c
    · obtain ⟨tail, htail⟩ := List.head?_eq_some_iff.mp hhead
      rw [hhead, htail, hgo] at hrun
      cases hrun
      exact ⟨b, hb, by rw [← htail]; exact hs⟩
    · rw [hstop _ _ hhead] at hrun
      cases hrun
  · rintro ⟨b, hb, rfl⟩
    have hdrop : (b ++ c :: rest).dropWhile isSpace = c :: rest := by
      rw [List.dropWhile_append_of_pos (by simpa [IsBlank] using hb)]
      simp [hc]
    rw [hdrop, List.head?_cons, hgo]

theorem isToken_colon : IsToken ':' colon := by
  refine isToken_of_peek (by decide) (fun _ => rfl) ?_
  intro found t hne
  split <;> simp_all

theorem isToken_endItems : IsToken ']' endItems := by
  refine isToken_of_peek (by decide) (fun _ => rfl) ?_
  intro found t hne
  split <;> simp_all

theorem isToken_endEntries : IsToken '}' endEntries := by
  refine isToken_of_peek (by decide) (fun _ => rfl) ?_
  intro found t hne
  split <;> simp_all

theorem run?_colon (hb : IsBlank b) (s : Text) : colon.run? (b ++ ':' :: s) = some ((), s) :=
  (isToken_colon _ _).mpr ⟨b, hb, rfl⟩

theorem run?_endItems (s : Text) : endItems.run? (']' :: s) = some ((), s) :=
  (isToken_endItems _ _).mpr ⟨[], rfl, rfl⟩

theorem run?_endEntries (s : Text) : endEntries.run? ('}' :: s) = some ((), s) :=
  (isToken_endEntries _ _).mpr ⟨[], rfl, rfl⟩

/-! ## Between items and entries -/

theorem run?_moreItems_close (hb : IsBlank b) (first : Bool) (s : Text) :
    (moreItems first).run? (b ++ ']' :: s) = some (false, ']' :: s) := by
  unfold moreItems
  rw [run?_bind, run?_peekToken_cons hb (by decide)]
  rfl

theorem run?_moreItems_first (hb : IsBlank b) (hc : isSpace c = false) (hend : c ≠ ']') (s : Text) :
    (moreItems true).run? (b ++ c :: s) = some (true, c :: s) := by
  unfold moreItems
  rw [run?_bind, run?_peekToken_cons hb hc, Option.bind_some]
  split <;> simp_all

theorem run?_moreItems_next (hb : IsBlank b) (hb' : IsBlank b') (hc : isSpace c = false)
    (hend : c ≠ ']') (s : Text) :
    (moreItems false).run? (b ++ ',' :: (b' ++ c :: s)) = some (true, c :: s) := by
  unfold moreItems
  rw [run?_bind, run?_peekToken_cons hb (by decide)]
  simp only [Option.bind_some, Bool.false_eq_true, ↓reduceIte, run?_bind, run?_advance,
    List.drop_one, List.tail_cons, run?_peekToken_cons hb' hc, run?_pure]

/-- Where an array goes on, and where it ends. -/
theorem of_run?_moreItems {first more : Bool} (h : (moreItems first).run? s = some (more, rest)) :
    ∃ b, IsBlank b ∧
      ((more = false ∧ s = b ++ rest ∧ rest.head? = some ']') ∨
        (more = true ∧ first = true ∧ s = b ++ rest) ∨
        (more = true ∧ first = false ∧ ∃ b', IsBlank b' ∧ s = b ++ ',' :: (b' ++ rest))) := by
  obtain ⟨b, hb, hs⟩ := exists_blank s
  refine ⟨b, hb, ?_⟩
  unfold moreItems at h
  rw [run?_bind, run?_peekToken, Option.bind_some] at h
  split at h
  · rename_i hhead
    cases h
    exact .inl ⟨rfl, hs, hhead⟩
  · rename_i hhead
    cases first with
    | true =>
      cases h
      exact .inr (.inl ⟨rfl, rfl, hs⟩)
    | false =>
      -- the comma is passed over, and blanks after it
      obtain ⟨tail, htail⟩ := List.head?_eq_some_iff.mp hhead
      rw [htail] at hs h
      obtain ⟨b', hb', htail'⟩ := exists_blank tail
      simp only [Bool.false_eq_true, ↓reduceIte, run?_bind, run?_advance, Option.bind_some,
        List.drop_one, List.tail_cons, run?_peekToken] at h
      split at h
      · cases h
      · cases h
        exact .inr (.inr ⟨rfl, rfl, b', hb', by rw [← htail']; exact hs⟩)
      · cases h
  · cases first with
    | true =>
      cases h
      exact .inr (.inl ⟨rfl, rfl, hs⟩)
    | false => cases h
  · cases h

theorem run?_moreEntries_close (hb : IsBlank b) (first : Bool) (s : Text) :
    (moreEntries first).run? (b ++ '}' :: s) = some (false, '}' :: s) := by
  unfold moreEntries
  rw [run?_bind, run?_peekToken_cons hb (by decide)]
  rfl

theorem run?_moreEntries_first (hb : IsBlank b) (s : Text) :
    (moreEntries true).run? (b ++ '"' :: s) = some (true, '"' :: s) := by
  unfold moreEntries
  rw [run?_bind, run?_peekToken_cons hb (by decide)]
  rfl

theorem run?_moreEntries_next (hb : IsBlank b) (hb' : IsBlank b') (s : Text) :
    (moreEntries false).run? (b ++ ',' :: (b' ++ '"' :: s)) = some (true, '"' :: s) := by
  unfold moreEntries
  rw [run?_bind, run?_peekToken_cons hb (by decide)]
  simp [run?_peekToken_cons hb' (show isSpace '"' = false by decide)]

/-- Where an object goes on, and where it ends. -/
theorem of_run?_moreEntries {first more : Bool}
    (h : (moreEntries first).run? s = some (more, rest)) :
    ∃ b, IsBlank b ∧
      ((more = false ∧ s = b ++ rest ∧ rest.head? = some '}') ∨
        (more = true ∧ first = true ∧ s = b ++ rest) ∨
        (more = true ∧ first = false ∧ ∃ b', IsBlank b' ∧ s = b ++ ',' :: (b' ++ rest))) := by
  obtain ⟨b, hb, hs⟩ := exists_blank s
  refine ⟨b, hb, ?_⟩
  unfold moreEntries at h
  rw [run?_bind, run?_peekToken, Option.bind_some] at h
  split at h
  · rename_i hhead
    cases h
    exact .inl ⟨rfl, hs, hhead⟩
  · rename_i hhead
    cases first with
    | true => cases h
    | false =>
      obtain ⟨tail, htail⟩ := List.head?_eq_some_iff.mp hhead
      rw [htail] at hs h
      obtain ⟨b', hb', htail'⟩ := exists_blank tail
      simp only [Bool.false_eq_true, ↓reduceIte, run?_bind, run?_advance, Option.bind_some,
        List.drop_one, List.tail_cons, run?_peekToken] at h
      split at h
      · cases h
        exact .inr (.inr ⟨rfl, rfl, b', hb', by rw [← htail']; exact hs⟩)
      · cases h
      · cases h
  · cases first with
    | true =>
      cases h
      exact .inr (.inl ⟨rfl, rfl, hs⟩)
    | false => cases h
  · cases h
  · cases h

end Reader

end NotebookExtract.Json
