import NotebookExtract.Proofs.Json.Numbers
import NotebookExtract.Proofs.Json.Strings
import NotebookExtract.Proofs.Json.Trees
import NotebookExtract.Proofs.Lists

/-!
# Values

On every text of the grammar a reader takes exactly one value, and its answer can
be read off the value's tree.
-/

namespace NotebookExtract.Json

namespace Reader

variable {α β : Type} {doc : Doc} {b p s rest : Text} {c : Char} {n : Nat}

/-! ## The first character of a value -/

/-- The characters with which a value may start. -/
inductive StartsWith : Doc → Char → Prop where
  | null : StartsWith .null 'n'
  | isTrue : StartsWith (.bool true) 't'
  | isFalse : StartsWith (.bool false) 'f'
  | number {m : Numeral} {c : Char} (h : c = '-' ∨ c.isDigit = true) : StartsWith (.number m) c
  | text {l : Literal} : StartsWith (.text l) '"'
  | array {items : List Doc} : StartsWith (.array items) '['
  | object {entries : List (Literal × Doc)} : StartsWith (.object entries) '{'

theorem exists_start (h : Printed doc p) : ∃ c tail, StartsWith doc c ∧ p = c :: tail := by
  cases h with
  | null => exact ⟨'n', _, .null, rfl⟩
  | true => exact ⟨'t', _, .isTrue, rfl⟩
  | false => exact ⟨'f', _, .isFalse, rfl⟩
  | number hm =>
    obtain ⟨c, tail, rfl, hc⟩ := exists_cons_of_written hm
    exact ⟨c, tail, .number hc, rfl⟩
  | text => exact ⟨'"', _, .text, rfl⟩
  | array => exact ⟨'[', _, .array, rfl⟩
  | object => exact ⟨'{', _, .object, rfl⟩

/-- A sign or a digit is none of the other characters that matter. -/
theorem ne_of_number {d : Char} (hd : d ≠ '-' ∧ d.isDigit = false)
    (hc : c = '-' ∨ c.isDigit = true) : c ≠ d := by
  rintro rfl
  rcases hc with rfl | hc
  · exact hd.1 rfl
  · rw [hd.2] at hc
    cases hc

theorem some_ne_of_number {d : Char} (hd : d ≠ '-' ∧ d.isDigit = false)
    (hc : c = '-' ∨ c.isDigit = true) : some c ≠ some d := fun heq =>
  ne_of_number hd hc (Option.some.inj heq)

theorem isSpace_of_number (hc : c = '-' ∨ c.isDigit = true) : isSpace c = false := by
  have hspace : ∀ d, d ≠ '-' ∧ d.isDigit = false → (c == d) = false := by
    intro d hd
    simpa using ne_of_number hd hc
  simp [isSpace, hspace]

theorem StartsWith.isSpace_eq (h : StartsWith doc c) : isSpace c = false := by
  cases h with
  | number hc => exact isSpace_of_number hc
  | _ => decide

theorem StartsWith.ne_closing (h : StartsWith doc c) : c ≠ ']' ∧ c ≠ '}' ∧ c ≠ ',' := by
  cases h with
  | number hc =>
    exact ⟨ne_of_number (by decide) hc, ne_of_number (by decide) hc, ne_of_number (by decide) hc⟩
  | _ => decide

/-- No number goes on after blanks, and none at all goes on with a comma or a bracket. -/
theorem stops_blank (hb : IsBlank b) (hs : Stops s) : Stops (b ++ s) := by
  cases b with
  | nil => exact hs
  | cons d b =>
    intro c hc
    obtain rfl : d = c := by simpa using hc
    have hd : isSpace d = true := by
      rw [IsBlank, List.all_cons, Bool.and_eq_true] at hb
      exact hb.1
    simp only [isSpace, Bool.or_eq_true, beq_iff_eq] at hd
    rcases hd with ((rfl | rfl) | rfl) | rfl <;> decide

theorem stops_cons (hc : c = ',' ∨ c = ']' ∨ c = '}') (s : Text) : Stops (c :: s) := by
  intro d hd
  obtain rfl : c = d := by simpa using hd
  rcases hc with rfl | rfl | rfl <;> decide

theorem stops_nil : Stops [] := by
  intro c hc
  cases hc

theorem stops_items {items : List Doc} (h : PrintedItems false items s) (rest : Text) :
    Stops (s ++ rest) := by
  cases h with
  | close hb =>
    rw [List.append_assoc]
    exact stops_blank hb (stops_cons (by simp) _)
  | next hb =>
    rw [List.append_assoc]
    exact stops_blank hb (stops_cons (by simp) _)

theorem stops_entries {entries : List (Literal × Doc)} (h : PrintedEntries false entries s)
    (rest : Text) : Stops (s ++ rest) := by
  cases h with
  | close hb =>
    rw [List.append_assoc]
    exact stops_blank hb (stops_cons (by simp) _)
  | next hb =>
    rw [List.append_assoc]
    exact stops_blank hb (stops_cons (by simp) _)

/-! ## One step of a loop over items or entries -/

theorem run?_moreItems_nil {first : Bool} (h : PrintedItems first [] s) (rest : Text) :
    (moreItems first).run? (s ++ rest) = some (false, ']' :: rest) := by
  cases h with
  | close hb =>
    rw [List.append_assoc]
    exact run?_moreItems_close hb first rest

/-- Before an item the loop goes on, and the item stands next. -/
theorem run?_moreItems_item {first : Bool} {item : Doc} {items : List Doc}
    (h : PrintedItems first (item :: items) s) :
    ∃ p s', Printed item p ∧ PrintedItems false items s' ∧ p.length + s'.length ≤ s.length ∧
      ∀ rest, (moreItems first).run? (s ++ rest) = some (true, p ++ (s' ++ rest)) := by
  cases h with
  | @first b p s' _ _ hb hp hs =>
    obtain ⟨c, tail, hc, rfl⟩ := exists_start hp
    refine ⟨_, _, hp, hs, by simp; omega, ?_⟩
    intro rest
    simpa using run?_moreItems_first hb hc.isSpace_eq hc.ne_closing.1 (tail ++ (s' ++ rest))
  | @next b b' p s' _ _ hb hb' hp hs =>
    obtain ⟨c, tail, hc, rfl⟩ := exists_start hp
    refine ⟨_, _, hp, hs, by simp; omega, ?_⟩
    intro rest
    simpa using run?_moreItems_next hb hb' hc.isSpace_eq hc.ne_closing.1 (tail ++ (s' ++ rest))

theorem run?_moreEntries_nil {first : Bool} (h : PrintedEntries first [] s) (rest : Text) :
    (moreEntries first).run? (s ++ rest) = some (false, '}' :: rest) := by
  cases h with
  | close hb =>
    rw [List.append_assoc]
    exact run?_moreEntries_close hb first rest

/-- Before an entry the loop goes on, and the entry stands next: its key, a colon
and its value. -/
theorem run?_moreEntries_entry {first : Bool} {key : Literal} {value : Doc}
    {entries : List (Literal × Doc)} (h : PrintedEntries first ((key, value) :: entries) s) :
    ∃ k b₁ b₂ p s', key.Written k ∧ IsBlank b₁ ∧ IsBlank b₂ ∧ Printed value p ∧
      PrintedEntries false entries s' ∧ p.length + s'.length ≤ s.length ∧
      ∀ rest, (moreEntries first).run? (s ++ rest) =
        some (true, '"' :: (k ++ (b₁ ++ ':' :: (b₂ ++ (p ++ (s' ++ rest)))))) := by
  cases h with
  | first hb hk hb₁ hb₂ hp hs =>
    refine ⟨_, _, _, _, _, hk, hb₁, hb₂, hp, hs, by simp; omega, ?_⟩
    intro rest
    simpa using run?_moreEntries_first hb _
  | next hb hb' hk hb₁ hb₂ hp hs =>
    refine ⟨_, _, _, _, _, hk, hb₁, hb₂, hp, hs, by simp; omega, ?_⟩
    intro rest
    simpa using run?_moreEntries_next hb hb' _

theorem length_pos_of_printed (h : Printed doc p) : 0 < p.length := by
  obtain ⟨c, tail, -, rfl⟩ := exists_start h
  simp

/-- An array has fewer items than characters. -/
theorem length_lt_of_printedItems {first : Bool} {items : List Doc}
    (h : PrintedItems first items s) : items.length < s.length := by
  induction items generalizing first s with
  | nil =>
    cases h
    simp
  | cons item items ih =>
    obtain ⟨p, s', hp, hs, hlength, -⟩ := run?_moreItems_item h
    have hpos := length_pos_of_printed hp
    have hrest := ih hs
    simp only [List.length_cons]
    omega

theorem length_lt_of_printedEntries {first : Bool} {entries : List (Literal × Doc)}
    (h : PrintedEntries first entries s) : entries.length < s.length := by
  induction entries generalizing first s with
  | nil =>
    cases h
    simp
  | cons entry entries ih =>
    obtain ⟨k, b₁, b₂, p, s', -, -, -, hp, hs, hlength, -⟩ := run?_moreEntries_entry h
    have hpos := length_pos_of_printed hp
    have hrest := ih hs
    simp only [List.length_cons]
    omega

/-! ## Readers of values -/

/-- The reader takes every value off a text that does not go on with a number, and
answers as `meaning` says of the value's tree. -/
def Reads (n : Nat) (r : Reader α) (meaning : Tree → Option α) : Prop :=
  ∀ ⦃b doc p rest⦄, IsBlank b → Printed doc p → Stops rest →
    r.run? (b ++ (p ++ rest)) = (meaning (doc.tree n)).map (·, rest)

theorem Reads.run?_eq {r : Reader α} {meaning : Tree → Option α} (hr : Reads n r meaning)
    (hp : Printed doc p) (hrest : Stops rest) :
    r.run? (p ++ rest) = (meaning (doc.tree n)).map (·, rest) := by
  have hblank : IsBlank [] := rfl
  simpa using hr hblank hp hrest

/-- The items of an array are read one after the other. -/
theorem run?_items {r : Reader α} {meaning : Tree → Option α} (hr : Reads n r meaning)
    {first : Bool} {items : List Doc} (h : PrintedItems first items s) {fuel : Nat}
    (hfuel : items.length < fuel) (rest : Text) :
    (Reader.items r fuel first).run? (s ++ rest) =
      ((items.map (Doc.tree n)).mapM meaning).map (·, rest) := by
  induction items generalizing first s fuel with
  | nil =>
    obtain ⟨fuel, rfl⟩ : ∃ k, fuel = k + 1 := ⟨fuel - 1, by omega⟩
    rw [Reader.items, run?_bind, run?_moreItems_nil h]
    simp [run?_endItems]
  | cons item items ih =>
    rw [List.length_cons] at hfuel
    obtain ⟨fuel, rfl⟩ : ∃ k, fuel = k + 1 := ⟨fuel - 1, by omega⟩
    obtain ⟨p, s', hp, hs, -, hmore⟩ := run?_moreItems_item h
    have hitem := hr.run?_eq hp (stops_items hs rest)
    have hrest := ih hs (show items.length < fuel by omega)
    rw [Reader.items, run?_bind, hmore]
    simp only [Option.bind_some, ↓reduceIte, run?_bind, hitem, List.map_cons, List.mapM_cons]
    cases meaning (item.tree n) with
    | none => rfl
    | some x =>
      simp only [Option.map_some, Option.bind_some, hrest]
      cases (items.map (Doc.tree n)).mapM meaning <;> rfl

/-- The entries of an object are read one after the other. -/
theorem run?_entries {r : Reader α} {meaning : Tree → Option α} (hr : Reads n r meaning)
    {first : Bool} {entries : List (Literal × Doc)} (h : PrintedEntries first entries s)
    {fuel : Nat} (hfuel : entries.length < fuel) (rest : Text) :
    (Reader.entries string r fuel first).run? (s ++ rest) =
      ((entries.mapM (Doc.field? n)).bind fun fields => fields.mapM fun field =>
        (meaning field.2).map (field.1, ·)).map (·, rest) := by
  rw [← Lists.mapM_bind]
  induction entries generalizing first s fuel with
  | nil =>
    obtain ⟨fuel, rfl⟩ : ∃ k, fuel = k + 1 := ⟨fuel - 1, by omega⟩
    rw [Reader.entries, run?_bind, run?_moreEntries_nil h]
    simp [run?_endEntries]
  | cons entry entries ih =>
    obtain ⟨literal, value⟩ := entry
    rw [List.length_cons] at hfuel
    obtain ⟨fuel, rfl⟩ : ∃ k, fuel = k + 1 := ⟨fuel - 1, by omega⟩
    obtain ⟨k, b₁, b₂, p, s', hk, hb₁, hb₂, hp, hs, -, hmore⟩ := run?_moreEntries_entry h
    have hvalue := hr hb₂ hp (stops_entries hs rest)
    have hrest := ih hs (show entries.length < fuel by omega)
    rw [Reader.entries, run?_bind, hmore, List.mapM_cons, Doc.field?]
    simp only [Option.bind_some, ↓reduceIte, run?_bind, run?_string hk]
    -- the key, the value or the rest may be unreadable
    cases literal.text? with
    | none => rfl
    | some key =>
      simp only [Option.map_some, Option.bind_some, run?_colon hb₁, hvalue]
      cases meaning (value.tree n) with
      | none => rfl
      | some x =>
        simp only [Option.map_some, Option.bind_some, hrest]
        cases entries.mapM fun entry =>
          (Doc.field? n entry).bind fun field => (meaning field.2).map (field.1, ·) <;> rfl

/-! ## Free values -/

theorem run?_number {m : Numeral} (h : m.Written s) (hrest : Stops rest) :
    number.run? (s ++ rest) = m.toNumber?.map (·, rest) := by
  unfold number
  rw [run?_bind, run?_numeral_written h hrest, Option.bind_some]
  cases m.toNumber? <;> rfl

theorem run?_arrayOf {r : Reader α} {meaning : Tree → Option α} (hr : Reads n r meaning)
    {items : List Doc} (h : PrintedItems true items s) (rest : Text) :
    (arrayOf r).run? ('[' :: (s ++ rest)) =
      ((items.map (Doc.tree n)).mapM meaning).map (·, rest) := by
  have hlength := length_lt_of_printedItems h
  unfold arrayOf
  simp only [run?_bind, run?_advance, Option.bind_some, List.drop_one, List.tail_cons, run?_rounds]
  exact run?_items hr h (by simp; omega) rest

theorem run?_objectOf {r : Reader Value} (hr : Reads n r Tree.value?)
    {entries : List (Literal × Doc)} (h : PrintedEntries true entries s) (rest : Text) :
    (objectOf r).run? ('{' :: (s ++ rest)) =
      (((entries.mapM (Doc.field? n)).bind Tree.fields?).map Association.lastValues).map
        (·, rest) := by
  have hlength := length_lt_of_printedEntries h
  have hfields : Tree.fields? = fun fields => fields.mapM fun field =>
      (field.2.value?).map (field.1, ·) := funext Tree.fields?_eq_mapM
  unfold objectOf
  simp only [run?_bind, run?_advance, Option.bind_some, List.drop_one, List.tail_cons, run?_rounds,
    run?_entries hr h (show entries.length < (s ++ rest).length + 1 by simp; omega), hfields]
  cases (entries.mapM (Doc.field? n)).bind fun fields => fields.mapM fun field =>
      (field.2.value?).map (field.1, ·) with
  | none => rfl
  | some fields =>
    rw [Option.map_some, Option.bind_some, run?_pure, Association.ofList_eq_lastValues]
    rfl

/-- The first character of a value is the first one that is no blank. -/
theorem dropWhile_printed (hb : IsBlank b) (hp : Printed doc p) (rest : Text) :
    ∃ c, StartsWith doc c ∧ (p ++ rest).head? = some c ∧
      (b ++ (p ++ rest)).dropWhile isSpace = p ++ rest := by
  obtain ⟨c, tail, hc, rfl⟩ := exists_start hp
  refine ⟨c, hc, rfl, ?_⟩
  rw [List.dropWhile_append_of_pos (by simpa [IsBlank] using hb)]
  simp [hc.isSpace_eq]

/-- Looking for a token finds the first character of a value. -/
theorem run?_peekToken_printed (hb : IsBlank b) (hp : Printed doc p) (rest : Text) :
    ∃ c, StartsWith doc c ∧ peekToken.run? (b ++ (p ++ rest)) = some (some c, p ++ rest) := by
  obtain ⟨c, hc, hhead, hdrop⟩ := dropWhile_printed hb hp rest
  exact ⟨c, hc, by rw [run?_peekToken, hdrop, hhead]⟩

/-- A value that is no array and no object is read whatever the readers for these. -/
theorem run?_valueWith {array object : Reader Value} (n : Nat) (hb : IsBlank b)
    (hp : Printed doc p) (hrest : Stops rest) :
    (valueWith array object).run? (b ++ (p ++ rest)) =
      match doc with
      | .array _ => array.run? (p ++ rest)
      | .object _ => object.run? (p ++ rest)
      | _ => (doc.tree n).value?.map (·, rest) := by
  obtain ⟨c, hc, hpeek⟩ := run?_peekToken_printed hb hp rest
  have hword : ∀ (w : Text) (x : Value),
      (word w >>= fun _ => pure x : Reader Value).run? (w ++ rest) = some (x, rest) := by
    intro w x
    rw [run?_bind, run?_word]
    rfl
  unfold valueWith
  rw [run?_bind, hpeek, Option.bind_some]
  cases hp with
  | null =>
    cases hc
    rw [Doc.tree]
    exact hword "null".toList .null
  | true =>
    cases hc
    rw [Doc.tree]
    exact hword "true".toList (.bool true)
  | false =>
    cases hc
    rw [Doc.tree]
    exact hword "false".toList (.bool false)
  | @number m s hm =>
    cases hc with
    | number hc =>
      -- a sign or a digit is none of the characters that are asked for first
      split
      · cases ‹some c = none›
      · exact absurd ‹some c = _› (some_ne_of_number (by decide) hc)
      · exact absurd ‹some c = _› (some_ne_of_number (by decide) hc)
      · exact absurd ‹some c = _› (some_ne_of_number (by decide) hc)
      · exact absurd ‹some c = _› (some_ne_of_number (by decide) hc)
      · exact absurd ‹some c = _› (some_ne_of_number (by decide) hc)
      · exact absurd ‹some c = _› (some_ne_of_number (by decide) hc)
      · rename_i d _ _ _ _ _ _ heq
        obtain rfl : c = d := Option.some.inj heq
        rw [if_pos hc, run?_bind, run?_number hm hrest, Doc.tree]
        cases m.toNumber? <;> rfl
  | @text l s hl =>
    cases hc
    show (string >>= fun t => pure (Value.text t) : Reader Value).run? ('"' :: (s ++ rest)) = _
    rw [run?_bind, run?_string hl, Doc.tree]
    cases l.text? <;> rfl
  | array =>
    cases hc
    rfl
  | object =>
    cases hc
    rfl

/-- A value is read as its tree says, however deep brackets may nest. -/
theorem reads_value (n : Nat) : Reads n (value n) Tree.value? := by
  induction n with
  | zero =>
    intro b doc p rest hb hp hrest
    rw [value, run?_valueWith 0 hb hp hrest]
    cases doc <;> rfl
  | succ n ih =>
    -- what stands in brackets is read with one level less
    intro b doc p rest hb hp hrest
    rw [value, run?_valueWith (n + 1) hb hp hrest]
    cases hp with
    | @array items s h =>
      show (Value.array <$> arrayOf (value n)).run? ('[' :: (s ++ rest)) = _
      rw [run?_map, run?_arrayOf ih h, Doc.tree_array, Tree.value?, Tree.values?_eq_mapM]
      cases (items.map (Doc.tree n)).mapM Tree.value? <;> rfl
    | @object entries s h =>
      show (Value.object <$> objectOf (value n)).run? ('{' :: (s ++ rest)) = _
      rw [run?_map, run?_objectOf ih h, Doc.tree_object]
      cases entries.mapM (Doc.field? n) with
      | none => rfl
      | some fields =>
        rw [Option.bind_some, Tree.value?]
        cases Tree.fields? fields <;> rfl
    | _ => rfl

/-! ## Values of one shape -/

/-- A tree that a value with this first character may have. -/
inductive TreeStartsWith : Tree → Char → Prop where
  | null : TreeStartsWith .null 'n'
  | isTrue : TreeStartsWith (.bool true) 't'
  | isFalse : TreeStartsWith (.bool false) 'f'
  | number {k : Number} {c : Char} (h : c = '-' ∨ c.isDigit = true) : TreeStartsWith (.number k) c
  | text {t : Text} : TreeStartsWith (.text t) '"'
  | array {items : List Tree} : TreeStartsWith (.array items) '['
  | object {entries : List (Text × Tree)} : TreeStartsWith (.object entries) '{'
  | unreadable {c : Char} : TreeStartsWith .unreadable c

theorem StartsWith.tree (h : StartsWith doc c) (n : Nat) : TreeStartsWith (doc.tree n) c := by
  cases h with
  | null =>
    rw [Doc.tree]
    exact .null
  | isTrue =>
    rw [Doc.tree]
    exact .isTrue
  | isFalse =>
    rw [Doc.tree]
    exact .isFalse
  | number hc =>
    rw [Doc.tree]
    split
    · exact .number hc
    · exact .unreadable
  | text =>
    rw [Doc.tree]
    split
    · exact .text
    · exact .unreadable
  | array =>
    cases n with
    | zero => exact .unreadable
    | succ n => exact .array
  | object =>
    cases n with
    | zero => exact .unreadable
    | succ n =>
      rw [Doc.tree_object]
      split
      · exact .object
      · exact .unreadable

namespace TreeStartsWith

variable {t : Tree}

theorem text?_eq_none (h : TreeStartsWith t c) (hc : c ≠ '"') : t.text? = none := by
  cases h with
  | text => exact absurd rfl hc
  | _ => rfl

theorem null?_eq_none (h : TreeStartsWith t c) (hc : c ≠ 'n') : t.null? = none := by
  cases h with
  | null => exact absurd rfl hc
  | _ => rfl

theorem unsigned?_eq_none (h : TreeStartsWith t c) (hc : ¬ (c = '-' ∨ c.isDigit = true))
    (bits : Nat) : t.unsigned? bits = none := by
  cases h with
  | number hnumber => exact absurd hnumber hc
  | _ => rfl

theorem list?_eq_none (h : TreeStartsWith t c) (hc : c ≠ '[') (read : Tree → Option α) :
    t.list? read = none := by
  cases h with
  | array => exact absurd rfl hc
  | _ => rfl

theorem object?_eq_none (h : TreeStartsWith t c) (hc : c ≠ '{') : t.object? = none := by
  cases h with
  | object => exact absurd rfl hc
  | _ => rfl

theorem orNull?_eq (h : TreeStartsWith t c) (hc : c ≠ 'n') (read : Tree → Option α) :
    t.orNull? read = (read t).map some := by
  cases h with
  | null => exact absurd rfl hc
  | _ => rfl

theorem entries?_eq_none (h : TreeStartsWith t c) (harray : c ≠ '[') (hobject : c ≠ '{')
    (names : List Text) : t.entries? names = none := by
  cases h with
  | array => exact absurd rfl harray
  | object => exact absurd rfl hobject
  | _ => rfl

end TreeStartsWith

/-- What a value is, by its first character. -/
theorem StartsWith.exists_text (h : StartsWith doc '"') : ∃ l, doc = .text l := by
  cases h with
  | number hc => exact absurd hc (by decide)
  | text => exact ⟨_, rfl⟩

theorem StartsWith.exists_array (h : StartsWith doc '[') : ∃ items, doc = .array items := by
  cases h with
  | number hc => exact absurd hc (by decide)
  | array => exact ⟨_, rfl⟩

theorem StartsWith.exists_object (h : StartsWith doc '{') : ∃ entries, doc = .object entries := by
  cases h with
  | number hc => exact absurd hc (by decide)
  | object => exact ⟨_, rfl⟩

theorem StartsWith.eq_null (h : StartsWith doc 'n') : doc = .null := by
  cases h with
  | number hc => exact absurd hc (by decide)
  | null => rfl

theorem StartsWith.exists_number (h : StartsWith doc c) (hc : c = '-' ∨ c.isDigit = true) :
    ∃ m, doc = .number m := by
  cases h with
  | number => exact ⟨_, rfl⟩
  | _ => exact absurd hc (by decide)

@[simp] theorem run?_unexpected (wanted : Wanted) (s : Text) :
    (unexpected wanted : Reader α).run? s = none := by
  unfold unexpected
  rw [run?_bind]
  cases found.run? s <;> rfl

/-- A reader that goes on with another one at a certain first character, and refuses
every other value. -/
def GoesOnAt (d : Char) (r accept : Reader α) : Prop :=
  ∀ s, r.run? s = if (s.dropWhile isSpace).head? = some d
    then accept.run? (s.dropWhile isSpace) else none

theorem goesOnAt_text : GoesOnAt '"' text string := by
  intro s
  unfold text
  rw [run?_bind, run?_peekToken, Option.bind_some]
  split <;> simp_all

theorem goesOnAt_unit : GoesOnAt 'n' unit (word "null".toList) := by
  intro s
  unfold unit
  rw [run?_bind, run?_peekToken, Option.bind_some]
  split <;> simp_all

theorem goesOnAt_sequence (n : Nat) (item : Nat → Reader α) :
    GoesOnAt '[' (sequence n item) (deeper n fun k => arrayOf (item k)) := by
  intro s
  unfold sequence
  rw [run?_bind, run?_peekToken, Option.bind_some]
  split <;> simp_all

theorem goesOnAt_map (n : Nat) : GoesOnAt '{' (map n) (deeper n fun k => objectOf (value k)) := by
  intro s
  unfold map
  rw [run?_bind, run?_peekToken, Option.bind_some]
  split <;> simp_all

theorem run?_optional (r : Reader α) (s : Text) :
    (optional r).run? s = if (s.dropWhile isSpace).head? = some 'n'
      then ((word "null".toList).run? (s.dropWhile isSpace)).map fun out => (none, out.2)
      else (r.run? (s.dropWhile isSpace)).map fun out => (some out.1, out.2) := by
  unfold optional
  rw [run?_bind, run?_peekToken, Option.bind_some]
  split
  · rename_i hhead
    rw [if_pos hhead, run?_bind]
    cases (word "null".toList).run? (s.dropWhile isSpace) <;> rfl
  · rename_i hhead
    rw [if_neg hhead, run?_bind]
    cases r.run? (s.dropWhile isSpace) <;> rfl

/-- A reader that looks at the first character takes a value if what it goes on with
takes the values that start so, and if no others are wanted. -/
theorem GoesOnAt.reads {r accept : Reader α} {d : Char} {meaning : Tree → Option α}
    (hr : GoesOnAt d r accept)
    (haccept : ∀ ⦃doc p rest⦄, StartsWith doc d → Printed doc p → Stops rest →
      accept.run? (p ++ rest) = (meaning (doc.tree n)).map (·, rest))
    (hrefuse : ∀ ⦃t c⦄, TreeStartsWith t c → c ≠ d → meaning t = none) : Reads n r meaning := by
  intro b doc p rest hb hp hrest
  obtain ⟨c, hc, hhead, hdrop⟩ := dropWhile_printed hb hp rest
  rw [hr, hdrop, hhead]
  by_cases hcd : c = d
  · subst hcd
    rw [if_pos rfl]
    exact haccept hc hp hrest
  · rw [if_neg fun heq => hcd (Option.some.inj heq), hrefuse (hc.tree n) hcd]
    rfl

theorem reads_text (n : Nat) : Reads n text Tree.text? := by
  refine goesOnAt_text.reads ?_ fun t c hc hne => hc.text?_eq_none hne
  intro doc p rest hc hp hrest
  obtain ⟨l, rfl⟩ := hc.exists_text
  cases hp with
  | text hl =>
    rw [List.cons_append, run?_string hl, Doc.tree]
    cases l.text? <;> rfl

theorem reads_unit (n : Nat) : Reads n unit Tree.null? := by
  refine goesOnAt_unit.reads ?_ fun t c hc hne => hc.null?_eq_none hne
  intro doc p rest hc hp hrest
  obtain rfl := hc.eq_null
  cases hp
  rw [run?_word, Doc.tree]
  rfl

/-- A list is read as its items are. -/
theorem reads_sequence {item : Nat → Reader α} {meaning : Tree → Option α}
    (hitem : ∀ n, Reads n (item n) meaning) (n : Nat) :
    Reads n (sequence n item) (Tree.list? meaning) := by
  refine (goesOnAt_sequence n item).reads ?_ fun t c hc hne => hc.list?_eq_none hne meaning
  intro doc p rest hc hp hrest
  obtain ⟨items, rfl⟩ := hc.exists_array
  cases hp with
  | array h =>
    cases n with
    | zero => rfl
    | succ n => exact run?_arrayOf (hitem n) h rest

theorem reads_map (n : Nat) : Reads n (map n) Tree.object? := by
  refine (goesOnAt_map n).reads ?_ fun t c hc hne => hc.object?_eq_none hne
  intro doc p rest hc hp hrest
  obtain ⟨entries, rfl⟩ := hc.exists_object
  cases hp with
  | object h =>
    cases n with
    | zero => rfl
    | succ n =>
      show (objectOf (value n)).run? _ = _
      rw [List.cons_append, run?_objectOf (reads_value n) h, Doc.tree_object]
      cases entries.mapM (Doc.field? n) <;> rfl

theorem reads_optional {r : Reader α} {meaning : Tree → Option α} (hr : Reads n r meaning) :
    Reads n (optional r) (Tree.orNull? meaning) := by
  intro b doc p rest hb hp hrest
  obtain ⟨c, hc, hhead, hdrop⟩ := dropWhile_printed hb hp rest
  rw [run?_optional, hdrop, hhead]
  by_cases hcn : c = 'n'
  · subst hcn
    obtain rfl := hc.eq_null
    cases hp
    rw [if_pos rfl, run?_word, Doc.tree]
    rfl
  · rw [if_neg fun heq => hcn (Option.some.inj heq), (hc.tree n).orNull?_eq hcn,
      hr.run?_eq hp hrest]
    cases meaning (doc.tree n) <;> rfl

/-- What stands here, for a message: a number is taken whole, and nothing else looks
like one. -/
theorem run?_found (hb : IsBlank b) (hp : Printed doc p) (hrest : Stops rest) :
    (∃ m, doc = .number m ∧
      found.run? (b ++ (p ++ rest)) = m.toNumber?.map fun k => (.number k, rest)) ∨
    ((∀ m, doc ≠ .number m) ∧
      ∀ k out, found.run? (b ++ (p ++ rest)) ≠ some (.number k, out)) := by
  obtain ⟨c, hc, hpeek⟩ := run?_peekToken_printed hb hp rest
  unfold found
  rw [run?_bind, hpeek, Option.bind_some]
  cases hp with
  | @number m s hm =>
    refine .inl ⟨m, rfl, ?_⟩
    cases hc with
    | number hc =>
      -- a sign or a digit is none of the characters that are asked for first
      split
      · cases ‹some c = none›
      · exact absurd ‹some c = _› (some_ne_of_number (by decide) hc)
      · exact absurd ‹some c = _› (some_ne_of_number (by decide) hc)
      · exact absurd ‹some c = _› (some_ne_of_number (by decide) hc)
      · exact absurd ‹some c = _› (some_ne_of_number (by decide) hc)
      · exact absurd ‹some c = _› (some_ne_of_number (by decide) hc)
      · exact absurd ‹some c = _› (some_ne_of_number (by decide) hc)
      · rename_i d _ _ _ _ _ _ heq
        obtain rfl : c = d := Option.some.inj heq
        rw [if_pos hc, run?_bind, run?_number hm hrest]
        cases m.toNumber? <;> rfl
  | _ =>
    refine .inr ⟨by simp, ?_⟩
    cases hc
    intro k out
    simp

theorem reads_unsigned (bits n : Nat) : Reads n (unsigned bits) (Tree.unsigned? bits) := by
  intro b doc p rest hb hp hrest
  unfold unsigned
  rw [run?_bind]
  rcases run?_found hb hp hrest with ⟨m, rfl, hfound⟩ | ⟨hne, hfound⟩
  · rw [hfound, Doc.tree]
    cases m.toNumber? with
    | none => rfl
    | some k =>
      cases k with
      | real x => rfl
      | int k =>
        -- the reader compares natural numbers, the schema integers
        have hrange : (0 ≤ k ∧ k.toNat < Nat.pow 2 bits) ↔ (0 ≤ k ∧ k < 2 ^ bits) := by
          refine and_congr_right fun hk => ?_
          show k.toNat < 2 ^ bits ↔ _
          rw [Int.toNat_lt hk]
          norm_cast
        simp only [Option.map_some, Option.bind_some, Tree.unsigned?, hrange]
        split <;> rfl
  · have hmeaning : (doc.tree n).unsigned? bits = none := by
      obtain ⟨c, -, hc, -⟩ := exists_start hp
      refine (hc.tree n).unsigned?_eq_none ?_ bits
      intro hnumber
      obtain ⟨m, rfl⟩ := hc.exists_number hnumber
      exact hne m rfl
    rw [hmeaning]
    cases hrun : found.run? (b ++ (p ++ rest)) with
    | none => rfl
    | some out =>
      -- whatever else was found, no number is made of it
      obtain ⟨what, out⟩ := out
      cases what with
      | number k => exact absurd hrun (hfound k out)
      | _ => rfl

end Reader

end NotebookExtract.Json
