import NotebookExtract.Proofs.Json.Values

/-!
# Skipped values

Every value of the grammar is passed over, whatever it holds and however deep it
nests, and what is passed over is a value of the grammar.
-/

namespace NotebookExtract.Json

namespace Reader

variable {doc : Doc} {b p s rest : Text} {c : Char}

/-! ## Blanks and first characters -/

theorem run?_peekToken_blank (hb : IsBlank b) (s : Text) :
    peekToken.run? (b ++ s) = peekToken.run? s := by
  rw [run?_peekToken, run?_peekToken,
    List.dropWhile_append_of_pos (by simpa [IsBlank] using hb)]

/-- Skipping starts with a look for a token, so blanks make no difference. -/
theorem run?_skipFrom_blank (hb : IsBlank b) (fuel : Nat) (outer : List Bracket) (s : Text) :
    (skipFrom fuel .value outer).run? (b ++ s) = (skipFrom fuel .value outer).run? s := by
  cases fuel with
  | zero => rfl
  | succ fuel => rw [skipFrom, run?_bind, run?_bind, run?_peekToken_blank hb]

/-! ## What the grammar allows is passed over -/

/-- Skipping gets over the text, which ends all that is open inside `outer`, in a
number of rounds that two for each character suffice for. -/
def PassesOver (point : SkipPoint) (inner : List Bracket) (s : Text) : Prop :=
  ∃ k, k + 1 ≤ 2 * s.length ∧ ∀ fuel outer rest, Stops rest →
    (skipFrom (fuel + k) point (inner ++ outer)).run? (s ++ rest) =
      (skipFrom fuel .done outer).run? rest

/-- A value without brackets takes one round. -/
theorem passesOver_of_step (hs : s ≠ [])
    (h : ∀ fuel outer rest, Stops rest → (skipFrom (fuel + 1) .value outer).run? (s ++ rest) =
      (skipFrom fuel .done outer).run? rest) : PassesOver .value [] s := by
  refine ⟨1, ?_, h⟩
  have hlength := List.length_pos_iff.mpr hs
  omega

theorem passesOver_number {m : Numeral} (hm : m.Written s) : PassesOver .value [] s := by
  obtain ⟨c, tail, rfl, hc⟩ := exists_cons_of_written hm
  refine passesOver_of_step (by simp) ?_
  intro fuel outer rest hrest
  have hblank : IsBlank [] := rfl
  have hpeek := run?_peekToken_cons hblank (isSpace_of_number hc) (tail ++ rest)
  rw [List.nil_append, ← List.cons_append] at hpeek
  rw [skipFrom, run?_bind, hpeek, Option.bind_some]
  -- a sign or a digit starts none of the other values
  split
  · cases ‹some c = none›
  · exact absurd ‹some c = _› (some_ne_of_number (by decide) hc)
  · exact absurd ‹some c = _› (some_ne_of_number (by decide) hc)
  · exact absurd ‹some c = _› (some_ne_of_number (by decide) hc)
  · exact absurd ‹some c = _› (some_ne_of_number (by decide) hc)
  · exact absurd ‹some c = _› (some_ne_of_number (by decide) hc)
  · exact absurd ‹some c = _› (some_ne_of_number (by decide) hc)
  · rename_i d _ _ _ _ _ _ heq
    obtain rfl : c = d := Option.some.inj heq
    rw [if_pos hc, run?_bind, run?_numeral_written hm hrest]
    rfl

theorem passesOver_text {l : Literal} (hl : l.Written s) : PassesOver .value [] ('"' :: s) := by
  refine passesOver_of_step (by simp) ?_
  intro fuel outer rest hrest
  show (skipString >>= fun _ => skipFrom fuel .done outer).run? ('"' :: (s ++ rest)) = _
  rw [run?_bind, run?_skipString hl, Option.bind_some]

/-- The three words take one round each. -/
theorem passesOver_word {w : Text} (hw : w ≠ []) (hp : Printed doc w)
    (h : ∀ {c}, StartsWith doc c → ∀ fuel outer s, peekToken.run? s = some (some c, s) →
      (skipFrom (fuel + 1) .value outer).run? s =
        ((word w) >>= fun _ => skipFrom fuel .done outer : Reader Unit).run? s) :
    PassesOver .value [] w := by
  refine passesOver_of_step hw ?_
  intro fuel outer rest _
  have hblank : IsBlank [] := rfl
  obtain ⟨c, hc, hpeek⟩ := run?_peekToken_printed hblank hp rest
  rw [List.nil_append] at hpeek
  rw [h hc fuel outer _ hpeek, run?_bind, run?_word, Option.bind_some]

/-! ## Inside a bracket -/

/-- Where skipping stands before the first or before another item. -/
def inside : Bool → SkipPoint
  | true => .opened
  | false => .done

theorem passesOver_close (bracket : Bracket) (first : Bool) (hb : IsBlank b) :
    PassesOver (inside first) [bracket] (b ++ [bracket.closing]) := by
  refine ⟨1, by rw [List.length_append, List.length_singleton]; omega, ?_⟩
  intro fuel outer rest _
  have hspace : isSpace bracket.closing = false := by cases bracket <;> decide
  have hpeek := run?_peekToken_cons hb hspace rest
  rw [List.append_assoc, List.singleton_append, List.singleton_append]
  cases first
  · show (skipFrom (fuel + 1) .done (bracket :: outer)).run? _ = _
    rw [skipFrom, run?_bind, hpeek, Option.bind_some, if_pos rfl]
    rfl
  · show (skipFrom (fuel + 1) .opened (bracket :: outer)).run? _ = _
    rw [skipFrom, run?_bind, hpeek, Option.bind_some, if_pos rfl]
    rfl

/-- What stands before a value inside a bracket: nothing, or a key and a colon. -/
def IsKey (bracket : Bracket) (key : Text) : Prop :=
  ∀ s, ∃ b, IsBlank b ∧ (skipKey bracket).run? (key ++ s) = some ((), b ++ s)

theorem isKey_square (hb : IsBlank b) : IsKey .square b := fun _ => ⟨b, hb, rfl⟩

theorem isKey_curly {l : Literal} {k b₁ b₂ : Text} (hb : IsBlank b) (hk : l.Written k)
    (hb₁ : IsBlank b₁) (hb₂ : IsBlank b₂) :
    IsKey .curly (b ++ '"' :: (k ++ (b₁ ++ ':' :: b₂))) := by
  intro s
  refine ⟨b₂, hb₂, ?_⟩
  have hpeek := run?_peekToken_cons hb (show isSpace '"' = false by decide)
    (k ++ (b₁ ++ ':' :: (b₂ ++ s)))
  simp only [List.append_assoc, List.cons_append]
  rw [skipKey, run?_bind, hpeek]
  show (skipString >>= fun _ => colon : Reader Unit).run? _ = _
  rw [run?_bind, run?_skipString hk, Option.bind_some, run?_colon hb₁]

/-- A value inside a bracket, and what follows it. -/
theorem run?_skipFrom_inside {bracket : Bracket} {key : Text} {k₁ k₂ : Nat}
    (hkey : IsKey bracket key) (hstops : ∀ rest, Stops (s ++ rest))
    (hvalue : ∀ fuel outer rest, Stops rest → (skipFrom (fuel + k₁) .value outer).run? (p ++ rest) =
      (skipFrom fuel .done outer).run? rest)
    (hs : ∀ fuel outer rest, Stops rest →
      (skipFrom (fuel + k₂) .done (bracket :: outer)).run? (s ++ rest) =
        (skipFrom fuel .done outer).run? rest)
    (fuel : Nat) (outer : List Bracket) (hrest : Stops rest) :
    (skipKey bracket >>= fun _ => skipFrom (fuel + k₂ + k₁) .value (bracket :: outer)).run?
      (key ++ (p ++ (s ++ rest))) = (skipFrom fuel .done outer).run? rest := by
  obtain ⟨b, hb, hrun⟩ := hkey (p ++ (s ++ rest))
  rw [run?_bind, hrun, Option.bind_some, run?_skipFrom_blank hb, hvalue _ _ _ (hstops rest),
    hs _ _ _ hrest]

theorem passesOver_first {bracket : Bracket} {key : Text} (hb : IsBlank b)
    (hkey : IsKey bracket key) (hstops : ∀ rest, Stops (s ++ rest))
    (hhead : ∃ c tail, key ++ p = c :: tail ∧ isSpace c = false ∧ c ≠ bracket.closing)
    (hvalue : PassesOver .value [] p) (hs : PassesOver .done [bracket] s) :
    PassesOver .opened [bracket] (b ++ (key ++ (p ++ s))) := by
  obtain ⟨k₁, hk₁, hvalue⟩ := hvalue
  obtain ⟨k₂, hk₂, hs⟩ := hs
  refine ⟨k₂ + k₁ + 1, by simp; omega, ?_⟩
  intro fuel outer rest hrest
  -- the look ahead sees the first character of the key or of the value
  obtain ⟨c, tail, hcons, hspace, hclosing⟩ := hhead
  have hpeek := run?_peekToken_cons hb hspace (tail ++ (s ++ rest))
  have htext : c :: (tail ++ (s ++ rest)) = key ++ (p ++ (s ++ rest)) := by
    rw [← List.append_assoc key, hcons, List.cons_append]
  rw [htext] at hpeek
  rw [show fuel + (k₂ + k₁ + 1) = fuel + k₂ + k₁ + 1 by omega, List.singleton_append]
  simp only [List.append_assoc]
  rw [skipFrom, run?_bind, hpeek, Option.bind_some,
    if_neg fun heq => hclosing (Option.some.inj heq), if_neg (Option.some_ne_none c)]
  exact run?_skipFrom_inside hkey hstops hvalue hs fuel outer hrest

theorem passesOver_next {bracket : Bracket} {key : Text} (hb : IsBlank b)
    (hkey : IsKey bracket key) (hstops : ∀ rest, Stops (s ++ rest))
    (hvalue : PassesOver .value [] p) (hs : PassesOver .done [bracket] s) :
    PassesOver .done [bracket] (b ++ ',' :: (key ++ (p ++ s))) := by
  obtain ⟨k₁, hk₁, hvalue⟩ := hvalue
  obtain ⟨k₂, hk₂, hs⟩ := hs
  refine ⟨k₂ + k₁ + 1, by simp; omega, ?_⟩
  intro fuel outer rest hrest
  have hpeek := run?_peekToken_cons hb (show isSpace ',' = false by decide)
    (key ++ (p ++ (s ++ rest)))
  have hclosing : some ',' ≠ some bracket.closing := by cases bracket <;> decide
  rw [show fuel + (k₂ + k₁ + 1) = fuel + k₂ + k₁ + 1 by omega, List.singleton_append]
  simp only [List.append_assoc, List.cons_append]
  rw [skipFrom, run?_bind, hpeek, Option.bind_some, if_neg hclosing, if_pos rfl]
  exact run?_skipFrom_inside hkey hstops hvalue hs fuel outer hrest

mutual

/-- A value is passed over, whatever is in it. -/
theorem passesOver_value {doc : Doc} {p : Text} (h : Printed doc p) : PassesOver .value [] p := by
  cases h with
  | null =>
    refine passesOver_word (by decide) .null ?_
    intro c hc fuel outer s hpeek
    cases hc
    rw [skipFrom, run?_bind, hpeek]
    rfl
  | true =>
    refine passesOver_word (by decide) .true ?_
    intro c hc fuel outer s hpeek
    cases hc
    rw [skipFrom, run?_bind, hpeek]
    rfl
  | false =>
    refine passesOver_word (by decide) .false ?_
    intro c hc fuel outer s hpeek
    cases hc
    rw [skipFrom, run?_bind, hpeek]
    rfl
  | number hm => exact passesOver_number hm
  | text hl => exact passesOver_text hl
  | array hs =>
    -- the opening bracket takes a round of its own, and `outer` gets one bracket more
    obtain ⟨k, hk, hpass⟩ := passesOver_items hs
    refine ⟨k + 1, by simp; omega, ?_⟩
    intro fuel outer rest hrest
    exact hpass fuel outer rest hrest
  | object hs =>
    obtain ⟨k, hk, hpass⟩ := passesOver_entries hs
    refine ⟨k + 1, by simp; omega, ?_⟩
    intro fuel outer rest hrest
    exact hpass fuel outer rest hrest

/-- So are the items of an array up to its end. -/
theorem passesOver_items {first : Bool} {items : List Doc} {s : Text}
    (h : PrintedItems first items s) : PassesOver (inside first) [.square] s := by
  cases h with
  | @close first b hb => exact passesOver_close .square first hb
  | first hb hp hs =>
    obtain ⟨c, tail, hc, htail⟩ := exists_start hp
    have hempty : IsBlank [] := rfl
    exact passesOver_first hb (isKey_square hempty) (stops_items hs)
      ⟨c, tail, htail, hc.isSpace_eq, hc.ne_closing.1⟩ (passesOver_value hp) (passesOver_items hs)
  | next hb hb' hp hs =>
    exact passesOver_next hb (isKey_square hb') (stops_items hs) (passesOver_value hp)
      (passesOver_items hs)

/-- So are the entries of an object. -/
theorem passesOver_entries {first : Bool} {entries : List (Literal × Doc)} {s : Text}
    (h : PrintedEntries first entries s) : PassesOver (inside first) [.curly] s := by
  cases h with
  | @close first b hb => exact passesOver_close .curly first hb
  | @first b k b₁ b₂ p s _ _ _ hb hk hb₁ hb₂ hp hs =>
    have hempty : IsBlank [] := rfl
    have hpass := passesOver_first hb (isKey_curly hempty hk hb₁ hb₂) (stops_entries hs)
      ⟨'"', _, rfl, by decide, by decide⟩ (passesOver_value hp) (passesOver_entries hs)
    simpa [inside] using hpass
  | next hb hb' hk hb₁ hb₂ hp hs =>
    have hpass := passesOver_next hb (isKey_curly hb' hk hb₁ hb₂) (stops_entries hs)
      (passesOver_value hp) (passesOver_entries hs)
    simpa [inside] using hpass

end

/-- Skipping takes a value of the grammar and nothing else. -/
theorem run?_skipValue (hb : IsBlank b) (hp : Printed doc p) (hrest : Stops rest) :
    skipValue.run? (b ++ (p ++ rest)) = some ((), rest) := by
  obtain ⟨k, hk, hpass⟩ := passesOver_value hp
  unfold skipValue
  rw [run?_bind, run?_rounds, Option.bind_some, run?_skipFrom_blank hb]
  obtain ⟨fuel, hfuel⟩ : ∃ fuel, 2 * ((b ++ (p ++ rest)).length + 1) = fuel + 1 + k :=
    ⟨2 * ((b ++ (p ++ rest)).length + 1) - 1 - k, by simp; omega⟩
  have hrun := hpass (fuel + 1) [] rest hrest
  rw [List.append_nil] at hrun
  rw [hfuel]
  exact hrun

/-! ## What is passed over is a value -/

/-- The rest of a bracket, from after it or from after one of its values. -/
def IsInside : Bracket → Bool → Text → Prop
  | .square, first, s => ∃ items, PrintedItems first items s
  | .curly, first, s => ∃ entries, PrintedEntries first entries s

/-- A key and its colon, where the bracket asks for them. -/
def IsKeyText : Bracket → Text → Prop
  | .square, key => key = []
  | .curly, key => ∃ b l k b₁, IsBlank b ∧ Literal.Written l k ∧ IsBlank b₁ ∧
      key = b ++ '"' :: (k ++ (b₁ ++ [':']))

theorem isBlank_append {b b' : Text} (hb : IsBlank b) (hb' : IsBlank b') : IsBlank (b ++ b') := by
  rw [IsBlank, List.all_append, Bool.and_eq_true]
  exact ⟨hb, hb'⟩

theorem isInside_close (bracket : Bracket) (first : Bool) (hb : IsBlank b) :
    IsInside bracket first (b ++ [bracket.closing]) := by
  cases bracket with
  | square => exact ⟨[], .close hb⟩
  | curly => exact ⟨[], .close hb⟩

theorem isInside_first {bracket : Bracket} {key b' : Text} (hb : IsBlank b)
    (hkey : IsKeyText bracket key) (hb' : IsBlank b') (hp : Printed doc p)
    (hs : IsInside bracket false s) :
    IsInside bracket true (b ++ (key ++ (b' ++ (p ++ s)))) := by
  cases bracket with
  | square =>
    obtain rfl := hkey
    obtain ⟨items, hs⟩ := hs
    have h := PrintedItems.first (isBlank_append hb hb') hp hs
    exact ⟨doc :: items, by simpa using h⟩
  | curly =>
    obtain ⟨b₀, l, k, b₁, hb₀, hk, hb₁, rfl⟩ := hkey
    obtain ⟨entries, hs⟩ := hs
    have h := PrintedEntries.first (isBlank_append hb hb₀) hk hb₁ hb' hp hs
    exact ⟨(l, doc) :: entries, by simpa using h⟩

theorem isInside_next {bracket : Bracket} {key b' : Text} (hb : IsBlank b)
    (hkey : IsKeyText bracket key) (hb' : IsBlank b') (hp : Printed doc p)
    (hs : IsInside bracket false s) :
    IsInside bracket false (b ++ ',' :: (key ++ (b' ++ (p ++ s)))) := by
  cases bracket with
  | square =>
    obtain rfl := hkey
    obtain ⟨items, hs⟩ := hs
    have h := PrintedItems.next hb hb' hp hs
    exact ⟨doc :: items, by simpa using h⟩
  | curly =>
    obtain ⟨b₀, l, k, b₁, hb₀, hk, hb₁, rfl⟩ := hkey
    obtain ⟨entries, hs⟩ := hs
    have h := PrintedEntries.next hb hb₀ hk hb₁ hb' hp hs
    exact ⟨(l, doc) :: entries, by simpa using h⟩

theorem of_run?_skipKey {bracket : Bracket} (h : (skipKey bracket).run? s = some ((), rest)) :
    ∃ key, IsKeyText bracket key ∧ s = key ++ rest := by
  cases bracket with
  | square =>
    cases h
    exact ⟨[], rfl, rfl⟩
  | curly =>
    obtain ⟨b, hb, hs⟩ := exists_blank s
    rw [skipKey, run?_bind, run?_peekToken, Option.bind_some] at h
    split at h
    · rw [run?_bind, Option.bind_eq_some_iff] at h
      obtain ⟨⟨⟨⟩, out⟩, hstring, hcolon⟩ := h
      obtain ⟨l, k, hk, hdrop⟩ := of_run?_skipString hstring
      obtain ⟨b₁, hb₁, rfl⟩ := (isToken_colon _ _).mp hcolon
      dsimp only at hdrop
      rw [hdrop] at hs
      exact ⟨b ++ '"' :: (k ++ (b₁ ++ [':'])), ⟨b, l, k, b₁, hb, hk, hb₁, rfl⟩, by simpa using hs⟩
    · cases h
    · cases h

/-- Skipping goes on after a value, with less fuel. -/
def GoesOn (fuel : Nat) (outer : List Bracket) (s rest : Text) : Prop :=
  ∃ fuel' < fuel, (skipFrom fuel' .done outer).run? s = some ((), rest)

theorem GoesOn.mono {fuel fuel' : Nat} {outer : List Bracket} (h : GoesOn fuel outer s rest)
    (hle : fuel ≤ fuel') : GoesOn fuel' outer s rest := by
  obtain ⟨k, hk, hrun⟩ := h
  exact ⟨k, by omega, hrun⟩

/-- A run that starts before a value, and one that starts inside a bracket. -/
structure SoundSkip (fuel : Nat) : Prop where
  value : ∀ {outer s rest}, (skipFrom fuel .value outer).run? s = some ((), rest) →
    ∃ b doc p s', IsBlank b ∧ Printed doc p ∧ s = b ++ (p ++ s') ∧ GoesOn fuel outer s' rest
  inside : ∀ (first : Bool) {bracket outer s rest},
    (skipFrom fuel (inside first) (bracket :: outer)).run? s = some ((), rest) →
    ∃ t s', IsInside bracket first t ∧ s = t ++ s' ∧ GoesOn fuel outer s' rest

theorem of_run?_word {w : Text} {fuel : Nat} {outer : List Bracket} (hp : Printed doc w)
    (h : (word w >>= fun _ => skipFrom fuel .done outer : Reader Unit).run? s = some ((), rest)) :
    ∃ doc p s', Printed doc p ∧ s = p ++ s' ∧ GoesOn (fuel + 1) outer s' rest := by
  rw [run?_bind, Option.bind_eq_some_iff] at h
  obtain ⟨⟨⟨⟩, out⟩, hword, hrun⟩ := h
  exact ⟨doc, w, out, hp, run?_word_eq_some_iff.mp hword, fuel, by omega, hrun⟩

/-- What one round before a value says, if later rounds are sound. -/
theorem of_run?_skipFrom_value {fuel : Nat} {outer : List Bracket} (ih : SoundSkip fuel)
    (h : (skipFrom (fuel + 1) .value outer).run? s = some ((), rest)) :
    ∃ b doc p s', IsBlank b ∧ Printed doc p ∧ s = b ++ (p ++ s') ∧
      GoesOn (fuel + 1) outer s' rest := by
  obtain ⟨b, hb, hs⟩ := exists_blank s
  suffices ∃ doc p s', Printed doc p ∧ s.dropWhile isSpace = p ++ s' ∧
      GoesOn (fuel + 1) outer s' rest by
    obtain ⟨doc, p, s', hp, hdrop, hgoes⟩ := this
    exact ⟨b, doc, p, s', hb, hp, by rw [← hdrop]; exact hs, hgoes⟩
  rw [skipFrom, run?_bind, run?_peekToken, Option.bind_some] at h
  -- a bracket is opened here, and what is inside it comes later
  have hopen : ∀ bracket c, (s.dropWhile isSpace).head? = some c →
      (advance >>= fun _ => skipFrom fuel .opened (bracket :: outer)).run? (s.dropWhile isSpace) =
        some ((), rest) →
      ∃ t s', IsInside bracket true t ∧ s.dropWhile isSpace = c :: (t ++ s') ∧
        GoesOn (fuel + 1) outer s' rest := by
    intro bracket c hhead hrun
    obtain ⟨tail, htail⟩ := List.head?_eq_some_iff.mp hhead
    rw [htail, run?_bind, run?_advance, Option.bind_some] at hrun
    obtain ⟨t, s', ht, rfl, hgoes⟩ := ih.inside true hrun
    exact ⟨t, s', ht, htail, hgoes.mono (by omega)⟩
  split at h
  · cases h
  · exact of_run?_word .null h
  · exact of_run?_word .true h
  · exact of_run?_word .false h
  · rw [run?_bind, Option.bind_eq_some_iff] at h
    obtain ⟨⟨⟨⟩, out⟩, hstring, hrun⟩ := h
    obtain ⟨l, k, hk, hdrop⟩ := of_run?_skipString hstring
    exact ⟨.text l, '"' :: k, out, .text hk, hdrop, fuel, by omega, hrun⟩
  · rename_i hhead
    obtain ⟨t, s', ⟨items, ht⟩, hdrop, hgoes⟩ := hopen .square '[' hhead h
    exact ⟨.array items, '[' :: t, s', .array ht, hdrop, hgoes⟩
  · rename_i hhead
    obtain ⟨t, s', ⟨entries, ht⟩, hdrop, hgoes⟩ := hopen .curly '{' hhead h
    exact ⟨.object entries, '{' :: t, s', .object ht, hdrop, hgoes⟩
  · split at h
    · rw [run?_bind, Option.bind_eq_some_iff] at h
      obtain ⟨⟨m, out⟩, hnumeral, hrun⟩ := h
      obtain ⟨p, hm, hdrop⟩ := of_run?_numeral hnumeral
      exact ⟨.number m, p, out, .number hm, hdrop, fuel, by omega, hrun⟩
    · cases h

/-- A value inside a bracket and what comes after it, if later rounds are sound. -/
theorem of_run?_skipKey_value {fuel : Nat} {bracket : Bracket} {outer : List Bracket}
    (ih : ∀ fuel' ≤ fuel, SoundSkip fuel')
    (h : (skipKey bracket >>= fun _ => skipFrom fuel .value (bracket :: outer)).run? s =
      some ((), rest)) :
    ∃ key b doc p t s', IsKeyText bracket key ∧ IsBlank b ∧ Printed doc p ∧
      IsInside bracket false t ∧ s = key ++ (b ++ (p ++ (t ++ s'))) ∧
      GoesOn fuel outer s' rest := by
  rw [run?_bind, Option.bind_eq_some_iff] at h
  obtain ⟨⟨⟨⟩, out⟩, hkey, hvalue⟩ := h
  obtain ⟨key, hkeyText, rfl⟩ := of_run?_skipKey hkey
  obtain ⟨b, doc, p, out, hb, hp, rfl, k, hk, hrun⟩ := (ih fuel (by omega)).value hvalue
  obtain ⟨t, s', ht, rfl, hgoes⟩ := (ih k (by omega)).inside false hrun
  exact ⟨key, b, doc, p, t, s', hkeyText, hb, hp, ht, rfl, hgoes.mono (by omega)⟩

/-- What one round inside a bracket says, if later rounds are sound. -/
theorem of_run?_skipFrom_inside {fuel : Nat} {bracket : Bracket} {first : Bool}
    {outer : List Bracket} (ih : ∀ fuel' ≤ fuel, SoundSkip fuel')
    (h : (skipFrom (fuel + 1) (inside first) (bracket :: outer)).run? s = some ((), rest)) :
    ∃ t s', IsInside bracket first t ∧ s = t ++ s' ∧ GoesOn (fuel + 1) outer s' rest := by
  obtain ⟨b, hb, hs⟩ := exists_blank s
  have hclose : (s.dropWhile isSpace).head? = some bracket.closing →
      (advance >>= fun _ => skipFrom fuel .done outer).run? (s.dropWhile isSpace) =
        some ((), rest) →
      ∃ t s', IsInside bracket first t ∧ s = t ++ s' ∧ GoesOn (fuel + 1) outer s' rest := by
    intro hhead hrun
    obtain ⟨tail, htail⟩ := List.head?_eq_some_iff.mp hhead
    rw [htail] at hs hrun
    rw [run?_bind, run?_advance, Option.bind_some] at hrun
    exact ⟨b ++ [bracket.closing], tail, isInside_close bracket first hb, by simpa using hs,
      fuel, by omega, hrun⟩
  cases first with
  | true =>
    -- after the opening bracket: its end, or a value without a comma before it
    rw [inside, skipFrom, run?_bind, run?_peekToken, Option.bind_some] at h
    split at h
    · rename_i hhead
      exact hclose hhead h
    · split at h
      · cases h
      · obtain ⟨key, b', doc, p, t, s', hkey, hb', hp, ht, hdrop, hgoes⟩ :=
          of_run?_skipKey_value ih h
        dsimp only at hdrop
        exact ⟨_, s', isInside_first hb hkey hb' hp ht, by rw [hs, hdrop]; simp,
          hgoes.mono (by omega)⟩
  | false =>
    -- after a value: the end of the bracket, or a comma and another value
    rw [inside, skipFrom, run?_bind, run?_peekToken, Option.bind_some] at h
    split at h
    · rename_i hhead
      exact hclose hhead h
    · split at h
      · rename_i hhead
        obtain ⟨tail, htail⟩ := List.head?_eq_some_iff.mp hhead
        rw [htail, run?_bind, run?_advance, Option.bind_some] at h
        obtain ⟨key, b', doc, p, t, s', hkey, hb', hp, ht, hdrop, hgoes⟩ :=
          of_run?_skipKey_value ih h
        change tail = _ at hdrop
        exact ⟨_, s', isInside_next hb hkey hb' hp ht, by rw [hs, htail, hdrop]; simp,
          hgoes.mono (by omega)⟩
      · split at h <;> cases h

theorem soundSkip (fuel : Nat) : SoundSkip fuel := by
  -- strong, since a value inside a bracket takes a number of rounds that is not known before
  induction fuel using Nat.strongRecOn with
  | _ fuel ih =>
    cases fuel with
    | zero =>
      refine ⟨fun h => ?_, fun first _ _ _ _ h => ?_⟩
      · rw [skipFrom] at h
        cases h
      · rw [skipFrom] at h
        cases h
    | succ fuel =>
      exact ⟨of_run?_skipFrom_value (ih fuel (by omega)),
        fun first => of_run?_skipFrom_inside fun k hk => ih k (by omega)⟩

theorem of_run?_skipValue (h : skipValue.run? s = some ((), rest)) :
    ∃ b doc p, IsBlank b ∧ Printed doc p ∧ s = b ++ (p ++ rest) := by
  unfold skipValue at h
  rw [run?_bind, run?_rounds, Option.bind_some] at h
  obtain ⟨b, doc, p, s', hb, hp, rfl, k, -, hrun⟩ := (soundSkip _).value h
  cases k with
  | zero => cases hrun
  | succ k =>
    cases hrun
    exact ⟨b, doc, p, hb, hp, rfl⟩

end Reader

end NotebookExtract.Json
