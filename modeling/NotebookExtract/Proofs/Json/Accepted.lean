import NotebookExtract.Proofs.Json.Skipping

/-!
# What is read is a value

Whatever a reader takes off a text is blanks and one value of the grammar. Together
with what the readers make of the values of the grammar, this leaves nothing open
about the texts that they accept.
-/

namespace NotebookExtract.Json

namespace Reader

variable {α β : Type} {s rest : Text}

/-- A reader that takes blanks and one value. -/
def Takes (r : Reader α) : Prop :=
  ∀ ⦃s x rest⦄, r.run? s = some (x, rest) →
    ∃ b doc p, IsBlank b ∧ Printed doc p ∧ s = b ++ (p ++ rest)

/-- A reader that takes one value, where its first character stands. -/
def TakesHere (d : Char) (r : Reader α) : Prop :=
  ∀ ⦃s x rest⦄, s.head? = some d → r.run? s = some (x, rest) →
    ∃ doc p, Printed doc p ∧ s = p ++ rest

/-- A text may have blanks before what is taken. -/
theorem exists_of_dropWhile {doc : Doc} {p : Text} (hp : Printed doc p)
    (h : s.dropWhile isSpace = p ++ rest) :
    ∃ b doc p, IsBlank b ∧ Printed doc p ∧ s = b ++ (p ++ rest) := by
  obtain ⟨b, hb, hs⟩ := exists_blank s
  rw [h] at hs
  exact ⟨b, doc, p, hb, hp, hs⟩

/-! ## Items and entries -/

section Loops

variable {first : Bool} {out : Text}

/-- An array that ends here. -/
theorem printedItems_close (hmore : (moreItems first).run? s = some (false, out))
    (hend : endItems.run? out = some ((), rest)) :
    ∃ t, PrintedItems first [] t ∧ s = t ++ rest := by
  obtain ⟨b, hb, ⟨-, rfl, -⟩ | ⟨h, -⟩ | ⟨h, -⟩⟩ := of_run?_moreItems hmore
  · -- blanks are passed over by the look ahead, and more of them by the end itself
    obtain ⟨b', hb', rfl⟩ := (isToken_endItems _ _).mp hend
    exact ⟨_, .close (isBlank_append hb hb'), by simp⟩
  · cases h
  · cases h

/-- An array that goes on with a value. -/
theorem printedItems_cons {b p t : Text} {doc : Doc} {docs : List Doc}
    (hmore : (moreItems first).run? s = some (true, b ++ (p ++ (t ++ rest))))
    (hb : IsBlank b) (hp : Printed doc p) (ht : PrintedItems false docs t) :
    ∃ t', PrintedItems first (doc :: docs) t' ∧ s = t' ++ rest := by
  obtain ⟨b₀, hb₀, ⟨h, -⟩ | ⟨-, rfl, rfl⟩ | ⟨-, rfl, b₁, hb₁, rfl⟩⟩ := of_run?_moreItems hmore
  · cases h
  · exact ⟨_, .first (isBlank_append hb₀ hb) hp ht, by simp⟩
  · exact ⟨_, .next hb₀ (isBlank_append hb₁ hb) hp ht, by simp⟩

/-- An object that ends here. -/
theorem printedEntries_close (hmore : (moreEntries first).run? s = some (false, out))
    (hend : endEntries.run? out = some ((), rest)) :
    ∃ t, PrintedEntries first [] t ∧ s = t ++ rest := by
  obtain ⟨b, hb, ⟨-, rfl, -⟩ | ⟨h, -⟩ | ⟨h, -⟩⟩ := of_run?_moreEntries hmore
  · obtain ⟨b', hb', rfl⟩ := (isToken_endEntries _ _).mp hend
    exact ⟨_, .close (isBlank_append hb hb'), by simp⟩
  · cases h
  · cases h

/-- An object that goes on with a key, a colon and a value. -/
theorem printedEntries_cons {k b₁ b₂ p t : Text} {l : Literal} {doc : Doc}
    {entries : List (Literal × Doc)}
    (hmore : (moreEntries first).run? s =
      some (true, '"' :: (k ++ (b₁ ++ ':' :: (b₂ ++ (p ++ (t ++ rest)))))))
    (hk : l.Written k) (hb₁ : IsBlank b₁) (hb₂ : IsBlank b₂) (hp : Printed doc p)
    (ht : PrintedEntries false entries t) :
    ∃ t', PrintedEntries first ((l, doc) :: entries) t' ∧ s = t' ++ rest := by
  obtain ⟨b, hb, ⟨h, -⟩ | ⟨-, rfl, rfl⟩ | ⟨-, rfl, b', hb', rfl⟩⟩ := of_run?_moreEntries hmore
  · cases h
  · exact ⟨_, .first hb hk hb₁ hb₂ hp ht, by simp⟩
  · exact ⟨_, .next hb hb' hk hb₁ hb₂ hp ht, by simp⟩

end Loops

/-- The items of an array, if each is a value. -/
theorem of_run?_items {r : Reader α} (hr : Takes r) {fuel : Nat} {first : Bool} {xs : List α}
    (h : (items r fuel first).run? s = some (xs, rest)) :
    ∃ docs t, PrintedItems first docs t ∧ s = t ++ rest := by
  induction fuel generalizing first s xs with
  | zero => cases h
  | succ fuel ih =>
    rw [items, run?_bind, Option.bind_eq_some_iff] at h
    obtain ⟨⟨more, out⟩, hmore, h⟩ := h
    cases more with
    | false =>
      simp only [Bool.false_eq_true, ↓reduceIte, run?_bind, Option.bind_eq_some_iff] at h
      obtain ⟨⟨⟨⟩, out'⟩, hend, h⟩ := h
      cases h
      exact ⟨[], printedItems_close hmore hend⟩
    | true =>
      simp only [↓reduceIte, run?_bind, Option.bind_eq_some_iff] at h
      obtain ⟨⟨x, out₁⟩, hx, ⟨xs', out₂⟩, hxs, h⟩ := h
      cases h
      obtain ⟨b, doc, p, hb, hp, rfl⟩ := hr hx
      obtain ⟨docs, t, ht, rfl⟩ := ih hxs
      exact ⟨doc :: docs, printedItems_cons hmore hb hp ht⟩

/-- The entries of an object, if each has a value. -/
theorem of_run?_entries {r : Reader β} (hr : Takes r) {fuel : Nat} {first : Bool}
    {xs : List (Text × β)} (h : (entries string r fuel first).run? s = some (xs, rest)) :
    ∃ docs t, PrintedEntries first docs t ∧ s = t ++ rest := by
  induction fuel generalizing first s xs with
  | zero => cases h
  | succ fuel ih =>
    rw [entries, run?_bind, Option.bind_eq_some_iff] at h
    obtain ⟨⟨more, out⟩, hmore, h⟩ := h
    cases more with
    | false =>
      simp only [Bool.false_eq_true, ↓reduceIte, run?_bind, Option.bind_eq_some_iff] at h
      obtain ⟨⟨⟨⟩, out'⟩, hend, h⟩ := h
      cases h
      exact ⟨[], printedEntries_close hmore hend⟩
    | true =>
      simp only [↓reduceIte, run?_bind, Option.bind_eq_some_iff] at h
      obtain ⟨⟨key, out₁⟩, hkey, ⟨⟨⟩, out₂⟩, hcolon, ⟨x, out₃⟩, hx, ⟨xs', out₄⟩, hxs, h⟩ := h
      cases h
      obtain ⟨l, k, hk, rfl⟩ := of_run?_string hkey
      obtain ⟨b₁, hb₁, rfl⟩ := (isToken_colon _ _).mp hcolon
      obtain ⟨b₂, doc, p, hb₂, hp, rfl⟩ := hr hx
      obtain ⟨docs, t, ht, rfl⟩ := ih hxs
      exact ⟨(l, doc) :: docs, printedEntries_cons hmore hk hb₁ hb₂ hp ht⟩

/-! ## Free values -/

theorem takesHere_string : TakesHere '"' string := by
  intro s t rest _ h
  obtain ⟨l, k, hk, rfl⟩ := of_run?_string h
  exact ⟨.text l, '"' :: k, .text hk, rfl⟩

theorem takesHere_arrayOf {r : Reader α} (hr : Takes r) : TakesHere '[' (arrayOf r) := by
  intro s xs rest hhead h
  obtain ⟨tail, rfl⟩ := List.head?_eq_some_iff.mp hhead
  unfold arrayOf at h
  rw [run?_bind, run?_advance, Option.bind_some, run?_bind, run?_rounds, Option.bind_some] at h
  obtain ⟨docs, t, ht, hs⟩ := of_run?_items hr h
  exact ⟨.array docs, '[' :: t, .array ht, congrArg (List.cons '[') hs⟩

theorem takesHere_objectOf {r : Reader Value} (hr : Takes r) : TakesHere '{' (objectOf r) := by
  intro s xs rest hhead h
  obtain ⟨tail, rfl⟩ := List.head?_eq_some_iff.mp hhead
  unfold objectOf at h
  rw [run?_bind, run?_advance, Option.bind_some, run?_bind, run?_rounds, Option.bind_some,
    run?_bind, Option.bind_eq_some_iff] at h
  obtain ⟨⟨ys, out⟩, hentries, h⟩ := h
  cases h
  obtain ⟨docs, t, ht, hs⟩ := of_run?_entries hr hentries
  exact ⟨.object docs, '{' :: t, .object ht, congrArg (List.cons '{') hs⟩

theorem TakesHere.map {d : Char} {r : Reader α} (hr : TakesHere d r) (f : α → β) :
    TakesHere d (f <$> r) := by
  intro s x rest hhead h
  rw [run?_map, Option.map_eq_some_iff] at h
  obtain ⟨⟨y, out⟩, hy, h⟩ := h
  cases h
  exact hr hhead hy

theorem of_run?_number {k : Number} (h : number.run? s = some (k, rest)) :
    ∃ doc p, Printed doc p ∧ s = p ++ rest := by
  unfold number at h
  rw [run?_bind, Option.bind_eq_some_iff] at h
  obtain ⟨⟨m, out⟩, hm, h⟩ := h
  obtain ⟨p, hp, hs⟩ := of_run?_numeral hm
  refine ⟨.number m, p, .number hp, ?_⟩
  split at h
  · cases h
    exact hs
  · cases h

theorem takes_valueWith {array object : Reader Value} (harray : TakesHere '[' array)
    (hobject : TakesHere '{' object) : Takes (valueWith array object) := by
  intro s x rest h
  -- the look ahead has passed over the blanks, and the rest of the reader is about what is left
  suffices ∃ doc p, Printed doc p ∧ s.dropWhile isSpace = p ++ rest by
    obtain ⟨doc, p, hp, hdrop⟩ := this
    exact exists_of_dropWhile hp hdrop
  have hword : ∀ {w doc} {y : Value}, Printed doc w →
      (word w >>= fun _ => pure y : Reader Value).run? (s.dropWhile isSpace) = some (x, rest) →
      ∃ doc p, Printed doc p ∧ s.dropWhile isSpace = p ++ rest := by
    intro w doc y hp hrun
    rw [run?_bind, Option.bind_eq_some_iff] at hrun
    obtain ⟨⟨⟨⟩, out⟩, hword, hrun⟩ := hrun
    cases hrun
    exact ⟨doc, w, hp, run?_word_eq_some_iff.mp hword⟩
  unfold valueWith at h
  rw [run?_bind, run?_peekToken, Option.bind_some] at h
  split at h
  · cases h
  · exact hword .null h
  · exact hword .true h
  · exact hword .false h
  · rename_i hhead
    exact takesHere_string.map Value.text hhead h
  · rename_i hhead
    exact harray hhead h
  · rename_i hhead
    exact hobject hhead h
  · split at h
    · rw [run?_bind, Option.bind_eq_some_iff] at h
      obtain ⟨⟨k, out⟩, hk, h⟩ := h
      cases h
      exact of_run?_number hk
    · cases h

theorem takes_value (n : Nat) : Takes (value n) := by
  induction n with
  | zero =>
    -- brackets are refused
    exact takes_valueWith (fun _ _ _ _ h => nomatch h) (fun _ _ _ _ h => nomatch h)
  | succ n ih =>
    exact takes_valueWith ((takesHere_arrayOf ih).map _) ((takesHere_objectOf ih).map _)

/-! ## Values of one shape -/

theorem GoesOnAt.takes {d : Char} {r accept : Reader α} (hr : GoesOnAt d r accept)
    (haccept : TakesHere d accept) : Takes r := by
  intro s x rest h
  rw [hr] at h
  split at h
  · rename_i hhead
    obtain ⟨doc, p, hp, hdrop⟩ := haccept hhead h
    exact exists_of_dropWhile hp hdrop
  · cases h

theorem takesHere_null : TakesHere 'n' (word "null".toList) := by
  rintro s ⟨⟩ rest - h
  exact ⟨.null, _, .null, run?_word_eq_some_iff.mp h⟩

theorem TakesHere.deeper {d : Char} {inner : Nat → Reader α} (h : ∀ n, TakesHere d (inner n))
    (n : Nat) : TakesHere d (Reader.deeper n inner) := by
  cases n with
  | zero => exact fun _ _ _ _ h => nomatch h
  | succ n => exact h n

theorem takes_text : Takes text := goesOnAt_text.takes takesHere_string

theorem takes_sequence {item : Nat → Reader α} (hitem : ∀ n, Takes (item n)) (n : Nat) :
    Takes (sequence n item) :=
  (goesOnAt_sequence n item).takes (.deeper (fun k => takesHere_arrayOf (hitem k)) n)

theorem takes_map (n : Nat) : Takes (map n) :=
  (goesOnAt_map n).takes (.deeper (fun k => takesHere_objectOf (takes_value k)) n)

theorem takes_optional {r : Reader α} (hr : Takes r) : Takes (optional r) := by
  intro s x rest h
  rw [run?_optional] at h
  split at h
  · rename_i hhead
    rw [Option.map_eq_some_iff] at h
    obtain ⟨⟨⟨⟩, out⟩, hword, h⟩ := h
    cases h
    obtain ⟨doc, p, hp, hdrop⟩ := takesHere_null hhead hword
    exact exists_of_dropWhile hp hdrop
  · rw [Option.map_eq_some_iff] at h
    obtain ⟨⟨y, out⟩, hy, h⟩ := h
    cases h
    -- the reader takes blanks of its own, though none is left for it
    obtain ⟨b, hb, hs⟩ := exists_blank s
    obtain ⟨b', doc, p, hb', hp, hdrop⟩ := hr hy
    rw [hdrop, ← List.append_assoc] at hs
    exact ⟨b ++ b', doc, p, isBlank_append hb hb', hp, hs⟩

/-- Of all that may stand here only a number is taken as one. -/
theorem of_run?_found {k : Number} (h : found.run? s = some (.number k, rest)) :
    ∃ doc p, Printed doc p ∧ s.dropWhile isSpace = p ++ rest := by
  unfold found at h
  rw [run?_bind, run?_peekToken, Option.bind_some] at h
  -- only the last branch, that of a sign or a digit, answers with a number
  split at h
  · cases h
  · simp at h
  · simp at h
  · simp at h
  · simp at h
  · cases h
  · cases h
  · split at h
    · rw [run?_bind, Option.bind_eq_some_iff] at h
      obtain ⟨⟨k', out⟩, hnumber, h⟩ := h
      cases h
      exact of_run?_number hnumber
    · cases h

theorem takes_unsigned (bits : Nat) : Takes (unsigned bits) := by
  intro s x rest h
  unfold unsigned at h
  rw [run?_bind, Option.bind_eq_some_iff] at h
  obtain ⟨⟨what, out⟩, hfound, h⟩ := h
  split at h
  · rename_i k hk
    obtain rfl : what = .number (.int k) := hk
    obtain ⟨doc, p, hp, hdrop⟩ := of_run?_found hfound
    split at h
    · cases h
      exact exists_of_dropWhile hp hdrop
    · cases h
  · cases h

end Reader

end NotebookExtract.Json
