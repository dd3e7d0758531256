import NotebookExtract.Proofs.Toml.Distinct
import NotebookExtract.Proofs.Toml.Tokens

/-!
# Values of TOML

A written value is read as the node of its tree, whatever stands behind it that does not
go on with it, and the finished tree of that node is the value. Brackets nest, so both are
shown for the items of an array and the entries of a table in braces, given that they hold
of what stands between the brackets, and then by induction on the depth.
-/

namespace NotebookExtract

namespace Association

variable {κ α : Type} [BEq κ] [LawfulBEq κ] {entries : List (κ × α)} {key : κ}

theorem lookup_of_not_mem (h : key ∉ entries.map Prod.fst) : entries.lookup key = none := by
  rw [List.lookup_eq_none_iff]
  intro entry hentry
  rw [bne_iff_ne]
  rintro rfl
  exact h (List.mem_map_of_mem hentry)

/-- A new key goes to the end. -/
theorem put_of_not_mem (h : key ∉ entries.map Prod.fst) (value : α) :
    put entries key value = entries ++ [(key, value)] := by
  induction entries with
  | nil => rfl
  | cons entry rest ih =>
    obtain ⟨k, v⟩ := entry
    rw [List.map_cons, List.mem_cons, not_or] at h
    have hk : (k == key) = false := by
      rw [beq_eq_false_iff_ne]
      exact Ne.symm h.1
    simp [put, hk, ih h.2]

/-- The last key keeps its place. -/
theorem put_append_singleton (h : key ∉ entries.map Prod.fst) (old value : α) :
    put (entries ++ [(key, old)]) key value = entries ++ [(key, value)] := by
  induction entries with
  | nil => simp [put]
  | cons entry rest ih =>
    obtain ⟨k, v⟩ := entry
    rw [List.map_cons, List.mem_cons, not_or] at h
    have hk : (k == key) = false := by
      rw [beq_eq_false_iff_ne]
      exact Ne.symm h.1
    simp [put, hk, ih h.2]

end Association

namespace Toml

open Settings

/-! ## Values as nodes -/

mutual

/-- A value as part of a document that may still grow. -/
def nodeOf : Tree → Node
  | .list items => .list (nodesOf items)
  | .table entries => .table .braces (entriesOf entries)
  | tree => .value tree

/-- Values as nodes. -/
def nodesOf : List Tree → List Node
  | [] => []
  | tree :: rest => nodeOf tree :: nodesOf rest

/-- The entries of a table as nodes. -/
def entriesOf : List (Text × Tree) → Entries
  | [] => []
  | (key, tree) :: rest => (key, nodeOf tree) :: entriesOf rest

end

theorem not_mem_of_nodup_append_cons {α : Type} {front back : List α} {a : α}
    (h : (front ++ a :: back).Nodup) : a ∉ front := by
  intro hmem
  exact (List.nodup_append.mp h).2.2 a hmem a List.mem_cons_self rfl

/-- An entry with a new key goes to the end. -/
theorem insertDotted_nil {entries : Entries} {key : Text} (h : key ∉ entries.map Prod.fst)
    (node : Node) : insertDotted [] key node entries = some (entries ++ [(key, node)]) := by
  have hnone : entries.lookup key = none := Association.lookup_of_not_mem h
  simp [insertDotted, editAt, hnone, Association.put_of_not_mem h]

theorem map_fst_entriesOf (entries : Table) :
    (entriesOf entries).map Prod.fst = entries.map Prod.fst := by
  induction entries with
  | nil => rfl
  | cons entry rest ih => simp [entriesOf, ih]

namespace Reader

variable {α : Type} {one : Tree → Text → Prop} {reader : Reader Node} {tree : Tree}
  {items : List Tree} {entries : Table} {b g r e s rest : Text}

/-! ## Where values start and stop -/

theorem stops_cons {c : Char} (h : c ∈ stopChars) (s : Text) : Stops (c :: s) := by
  intro d hd
  rw [List.head?_cons, Option.mem_some_iff] at hd
  exact hd ▸ h

theorem stops_blanks (hb : IsBlanks b) (hrest : Stops rest) : Stops (b ++ rest) := by
  cases b with
  | nil => exact hrest
  | cons c b =>
    rw [IsBlanks, List.all_cons, Bool.and_eq_true] at hb
    rw [isBlank, Bool.or_eq_true, beq_iff_eq, beq_iff_eq] at hb
    rcases hb.1 with rfl | rfl <;> exact stops_cons (by decide) _

theorem stops_remark (hr : WrittenRemark r) (hrest : Stops rest) : Stops (r ++ rest) := by
  cases hr with
  | absent => exact hrest
  | present hc => exact stops_cons (by decide) _

theorem stops_lineBreak (he : LineBreak e) (rest : Text) : Stops (e ++ rest) := by
  cases he <;> exact stops_cons (by decide) _

theorem stops_gap (hg : Gap g) (hrest : Stops rest) : Stops (g ++ rest) := by
  cases hg with
  | blanks hb => exact stops_blanks hb hrest
  | line hb hr he hg =>
    rw [List.append_assoc, List.append_assoc, List.append_assoc]
    exact stops_blanks hb (stops_remark hr (stops_lineBreak he _))

/-- The characters that a value may start with, but for digits. -/
def startChars : List Char := ['t', 'f', '"', '\'', '+', '-', '[', '{']

/-- A text that starts like a value. -/
def StartsValue (s : Text) : Prop := ∃ c later, s = c :: later ∧ (c.isDigit = true ∨ c ∈ startChars)

theorem StartsValue.append (h : StartsValue s) (rest : Text) : StartsValue (s ++ rest) := by
  obtain ⟨c, later, rfl, hc⟩ := h
  exact ⟨c, later ++ rest, rfl, hc⟩

theorem StartsValue.leaves {p : Char → Bool} (h : StartsValue s)
    (hdigit : ∀ c, p c = true → c.isDigit = false) (hp : startChars.all (!p ·) = true) :
    Leaves p s := by
  obtain ⟨c, later, rfl, hc⟩ := h
  refine leaves_cons ?_ later
  rcases hc with hc | hc
  · rw [← Bool.not_eq_true]
    intro hpc
    rw [hdigit c hpc] at hc
    cases hc
  · simpa using List.all_eq_true.mp hp c hc

theorem isDigit_of_opensGap {c : Char} (h : opensGap c = true) : c.isDigit = false := by
  simp only [opensGap, isBlank, Bool.or_eq_true, beq_iff_eq] at h
  rcases h with (((rfl | rfl) | rfl) | rfl) | rfl <;> decide

theorem exists_cons_of_integer {negative : Bool} {sign digits : Text}
    (hsign : WrittenSign negative sign) (hdigits : IsWhole digits) :
    ∃ c later, sign ++ digits = c :: later ∧ (c.isDigit = true ∨ c = '+' ∨ c = '-') := by
  cases hsign with
  | absent =>
    obtain ⟨d, later, rfl⟩ := List.exists_cons_of_ne_nil hdigits.nonempty
    have hall := hdigits.all_digits
    rw [List.all_cons, Bool.and_eq_true] at hall
    exact ⟨d, later, rfl, Or.inl hall.1⟩
  | plus => exact ⟨_, _, rfl, by simp⟩
  | minus => exact ⟨_, _, rfl, by simp⟩

theorem startsValue_of_scalar (h : WrittenScalar tree s) : StartsValue s := by
  cases h with
  | isTrue => exact ⟨_, _, rfl, by decide⟩
  | isFalse => exact ⟨_, _, rfl, by decide⟩
  | basic h => exact ⟨_, _, rfl, by decide⟩
  | literal h => exact ⟨_, _, rfl, by decide⟩
  | integer hsign hdigits =>
    obtain ⟨c, later, hcons, hc⟩ := exists_cons_of_integer hsign hdigits
    refine ⟨c, later, hcons, ?_⟩
    rcases hc with hdigit | rfl | rfl
    · exact Or.inl hdigit
    · exact Or.inr (by decide)
    · exact Or.inr (by decide)

theorem startsValue_of_written {n : Nat} (h : Written n tree s) : StartsValue s := by
  cases n with
  | zero => exact startsValue_of_scalar h
  | succ n =>
    cases h with
    | scalar h => exact startsValue_of_scalar h
    | array h => exact ⟨_, _, rfl, by decide⟩
    | empty hb => exact ⟨_, _, rfl, by decide⟩
    | braces h hkeys => exact ⟨_, _, rfl, by decide⟩

/-! ## Values without parts -/

theorem valueWith_scalar (h : WrittenScalar tree s) (hrest : Stops rest)
    (array table : Reader Node) :
    valueWith array table (s ++ rest) = some (nodeOf tree, rest) := by
  rw [valueWith, bind_of_eq_some (peek_eq _)]
  cases h with
  | isTrue => exact bind_of_eq_some (word_append "true".toList rest)
  | isFalse => exact bind_of_eq_some (word_append "false".toList rest)
  | basic h => exact bind_of_eq_some (string_basic h (hrest.head?_ne (by decide)))
  | literal h =>
    rw [List.cons_append, List.append_assoc]
    exact bind_of_eq_some (string_literal h (hrest.head?_ne (by decide)))
  | @integer negative sign digits hsign hdigits hleast hmost =>
    obtain ⟨hdate, -⟩ := startsDecimal hsign hdigits.all_digits hrest
    have hnumber := number_append hsign hdigits hleast hmost hrest
    obtain ⟨c, later, hcons, hc⟩ := exists_cons_of_integer hsign hdigits
    -- the first character announces no other kind of value
    have hne : ∀ d : Char, d.isDigit = false → d ≠ '+' → d ≠ '-' → c ≠ d := by
      rintro d hdigit hplus hminus rfl
      rcases hc with hc | rfl | rfl
      · rw [hdigit] at hc
        cases hc
      · exact hplus rfl
      · exact hminus rfl
    have hhead : (sign ++ digits ++ rest).head? = some c := by rw [hcons]; rfl
    rw [hhead, List.append_assoc]
    simp only [↓Char.isValue, Option.some.injEq, hne '"' (by decide) (by decide) (by decide),
      hne '\'' (by decide) (by decide) (by decide), hne '[' (by decide) (by decide) (by decide),
      hne '{' (by decide) (by decide) (by decide), hne 't' (by decide) (by decide) (by decide),
      hne 'f' (by decide) (by decide) (by decide), imp_self]
    rw [bind_of_eq_some hdate]
    exact bind_of_eq_some hnumber

/-! ## Arrays and tables in braces -/

/-- A reader takes values off a text that are written in some ways. -/
structure Takes (reader : Reader Node) (one : Tree → Text → Prop) : Prop where
  starts : ∀ {tree s}, one tree s → StartsValue s
  reads : ∀ {tree s rest}, one tree s → Stops rest → reader (s ++ rest) = some (nodeOf tree, rest)

theorem StartsValue.length_pos (h : StartsValue s) : 0 < s.length := by
  obtain ⟨c, later, rfl, -⟩ := h
  simp

theorem length_lt_of_writtenItems (h : WrittenItems one items s)
    (hone : ∀ {tree s}, one tree s → StartsValue s) : items.length < s.length := by
  induction h with
  | close hg => simp
  | last hg hitem hg' =>
    have hpos := (hone hitem).length_pos
    simp only [List.length_append, List.length_cons, List.length_nil]
    omega
  | cons hg hitem hg' h ih =>
    simp only [List.length_append, List.length_cons]
    omega

/-- A gap is passed over with the fuel that the text gives. -/
theorem rounds_spread (hg : Gap g) (hrest : Leaves opensGap rest) (next : Reader α) :
    (do spread (← rounds); next) (g ++ rest) = next rest := by
  have hfuel : g.length < (g ++ rest).length + 1 := by
    rw [List.length_append]
    omega
  rw [bind_of_eq_some (rounds_eq _), bind_of_eq_some (spread_append hg hfuel hrest)]

/-- An item of an array, with the gaps around it: a comma leads to more items. -/
theorem arrayRest_item (htakes : Takes reader one) {g' : Text} {c : Char} (hg : Gap g)
    (hone : one tree s) (hg' : Gap g') (hc : c = ',' ∨ c = ']') (fuel : Nat) (rest : Text) :
    arrayRest reader (fuel + 1) (g ++ (s ++ (g' ++ c :: rest))) =
      if c = ',' then (arrayRest reader fuel rest).map fun out => (nodeOf tree :: out.1, out.2)
      else some ([nodeOf tree], rest) := by
  have hstart : StartsValue (s ++ (g' ++ c :: rest)) := (htakes.starts hone).append _
  have hbracket : (s ++ (g' ++ c :: rest)).head? ≠ some ']' := by
    obtain ⟨d, later, hcons, hd⟩ := hstart
    rw [hcons, List.head?_cons]
    intro heq
    obtain rfl := Option.some.inj heq
    exact absurd hd (by decide)
  have hstops : Stops (c :: rest) := stops_cons (by rcases hc with rfl | rfl <;> decide) rest
  have hend : Leaves opensGap (c :: rest) :=
    leaves_cons (by rcases hc with rfl | rfl <;> decide) rest
  rw [arrayRest, rounds_spread hg (hstart.leaves (fun _ => isDigit_of_opensGap) (by decide)),
    bind_of_eq_some (peek_eq _), if_neg hbracket,
    bind_of_eq_some (htakes.reads hone (stops_gap hg' hstops)), rounds_spread hg' hend]
  rcases hc with rfl | rfl
  · exact bind_cons (arrayRest reader fuel) (nodeOf tree) rest
  · rfl

theorem arrayRest_append (htakes : Takes reader one) (h : WrittenItems one items s) {fuel : Nat}
    (hfuel : items.length < fuel) :
    arrayRest reader fuel (s ++ rest) = some (nodesOf items, rest) := by
  induction h generalizing fuel with
  | close hg =>
    obtain ⟨fuel, rfl⟩ := Nat.exists_eq_add_one_of_ne_zero (Nat.ne_zero_of_lt hfuel)
    rw [List.append_assoc, List.singleton_append, arrayRest,
      rounds_spread hg (leaves_cons rfl rest)]
    rfl
  | last hg hone hg' =>
    obtain ⟨fuel, rfl⟩ := Nat.exists_eq_add_one_of_ne_zero (Nat.ne_zero_of_lt hfuel)
    rw [List.append_assoc, List.append_assoc, List.append_assoc, List.singleton_append,
      arrayRest_item htakes hg hone hg' (Or.inr rfl)]
    rfl
  | cons hg hone hg' h ih =>
    obtain ⟨fuel, rfl⟩ := Nat.exists_eq_add_one_of_ne_zero (Nat.ne_zero_of_lt hfuel)
    rw [List.append_assoc, List.append_assoc, List.append_assoc, List.cons_append,
      arrayRest_item htakes hg hone hg' (Or.inl rfl), ih (Nat.lt_of_succ_lt_succ hfuel)]
    rfl

theorem length_le_of_writtenPairs (h : WrittenPairs one entries s) : entries.length ≤ s.length := by
  induction h with
  | last hb hkey hb₁ hb₂ hone hb₃ =>
    simp only [List.length_append, List.length_cons, List.length_nil]
    omega
  | cons hb hkey hb₁ hb₂ hone hb₃ h ih =>
    simp only [List.length_append, List.length_cons]
    omega

/-- An entry of a table in braces, with the blanks around it: a comma leads to more
entries. -/
theorem inlineRest_pair (htakes : Takes reader one) {key b₁ b₂ b₃ : Text} {known : Entries}
    {c : Char} (hb : IsBlanks b) (hkey : IsBare key) (hb₁ : IsBlanks b₁) (hb₂ : IsBlanks b₂)
    (hone : one tree s) (hb₃ : IsBlanks b₃) (hnew : key ∉ known.map Prod.fst)
    (hc : c = ',' ∨ c = '}') (fuel : Nat) (rest : Text) :
    inlineRest reader (fuel + 1) known
        (b ++ (key ++ (b₁ ++ '=' :: (b₂ ++ (s ++ (b₃ ++ c :: rest)))))) =
      if c = ',' then inlineRest reader fuel (known ++ [(key, nodeOf tree)]) rest
      else some (known ++ [(key, nodeOf tree)], rest) := by
  have hwritten : WrittenKey ([] ++ [key]) (b ++ (key ++ b₁)) := .last hb hkey hb₁
  have hread := key_append hwritten (by decide)
    (endsKey_cons (Or.inl rfl) (b₂ ++ (s ++ (b₃ ++ c :: rest))))
  rw [List.append_assoc, List.append_assoc] at hread
  have hstart : StartsValue (s ++ (b₃ ++ c :: rest)) := (htakes.starts hone).append _
  have hblank : Leaves isBlank (s ++ (b₃ ++ c :: rest)) :=
    leaves_of_imp (fun _ => opensGap_of_isBlank)
      (hstart.leaves (fun _ => isDigit_of_opensGap) (by decide))
  have hstops : Stops (c :: rest) := stops_cons (by rcases hc with rfl | rfl <;> decide) rest
  have hend : Leaves isBlank (c :: rest) :=
    leaves_cons (by rcases hc with rfl | rfl <;> decide) rest
  have hinsert : ∀ t : Text, (liftM (insertDotted [] key (nodeOf tree) known) : Reader Entries) t =
      some (known ++ [(key, nodeOf tree)], t) := by
    intro t
    rw [insertDotted_nil hnew]
    rfl
  rw [inlineRest, bind_of_eq_some hread]
  dsimp only
  rw [bind_of_eq_some (word_cons '=' _), bind_of_eq_some (blanks_append hb₂ hblank),
    bind_of_eq_some (htakes.reads hone (stops_blanks hb₃ hstops)), bind_of_eq_some (hinsert _),
    bind_of_eq_some (blanks_append hb₃ hend)]
  rcases hc with rfl | rfl <;> rfl

theorem inlineRest_append (htakes : Takes reader one) (h : WrittenPairs one entries s) {fuel : Nat}
    (hfuel : entries.length ≤ fuel) {known : Entries}
    (hkeys : (known.map Prod.fst ++ entries.map Prod.fst).Nodup) :
    inlineRest reader fuel known (s ++ rest) = some (known ++ entriesOf entries, rest) := by
  induction h generalizing fuel known with
  | last hb hkey hb₁ hb₂ hone hb₃ =>
    obtain ⟨fuel, rfl⟩ := Nat.exists_eq_add_one_of_ne_zero (Nat.ne_zero_of_lt hfuel)
    have hnew := not_mem_of_nodup_append_cons hkeys
    simp only [List.append_assoc, List.cons_append, List.nil_append]
    rw [inlineRest_pair htakes hb hkey hb₁ hb₂ hone hb₃ hnew (Or.inr rfl)]
    rfl
  | cons hb hkey hb₁ hb₂ hone hb₃ h ih =>
    obtain ⟨fuel, rfl⟩ := Nat.exists_eq_add_one_of_ne_zero (Nat.ne_zero_of_lt hfuel)
    have hnew := not_mem_of_nodup_append_cons hkeys
    simp only [List.append_assoc, List.cons_append]
    rw [inlineRest_pair htakes hb hkey hb₁ hb₂ hone hb₃ hnew (Or.inl rfl), if_pos rfl,
      ih (Nat.le_of_succ_le_succ hfuel) (by simpa using hkeys)]
    simp [entriesOf]

theorem inlineTable_empty (hb : IsBlanks b) (rest : Text) :
    inlineTable reader (b ++ '}' :: rest) = some (.table .braces [], rest) := by
  rw [inlineTable, bind_of_eq_some (blanks_append hb (leaves_cons rfl rest))]
  rfl

/-- The first key without the blanks before it. -/
theorem exists_blanks_of_writtenPairs (h : WrittenPairs one entries s) :
    ∃ b c later, s = b ++ c :: later ∧ IsBlanks b ∧ isBareKey c = true ∧
      WrittenPairs one entries (c :: later) := by
  have hnone : IsBlanks [] := rfl
  cases h with
  | last hb hkey hb₁ hb₂ hone hb₃ =>
    have hpairs := WrittenPairs.last hnone hkey hb₁ hb₂ hone hb₃
    obtain ⟨c, later, rfl, hc⟩ := exists_cons_of_isBare hkey
    exact ⟨_, c, _, rfl, hb, hc, hpairs⟩
  | cons hb hkey hb₁ hb₂ hone hb₃ h =>
    have hpairs := WrittenPairs.cons hnone hkey hb₁ hb₂ hone hb₃ h
    obtain ⟨c, later, rfl, hc⟩ := exists_cons_of_isBare hkey
    exact ⟨_, c, _, rfl, hb, hc, hpairs⟩

theorem inlineTable_append (htakes : Takes reader one) (h : WrittenPairs one entries s)
    (hkeys : (entries.map Prod.fst).Nodup) (rest : Text) :
    inlineTable reader (s ++ rest) = some (.table .braces (entriesOf entries), rest) := by
  obtain ⟨b, c, later, rfl, hb, hc, hpairs⟩ := exists_blanks_of_writtenPairs h
  have hbrace : ¬some c = some '}' := by
    rintro heq
    obtain rfl := Option.some.inj heq
    exact absurd hc (by decide)
  have hfuel : entries.length ≤ (c :: later ++ rest).length + 1 := by
    have hle := length_le_of_writtenPairs hpairs
    rw [List.length_append]
    omega
  have hread : inlineRest reader ((c :: later ++ rest).length + 1) [] (c :: later ++ rest) =
      some (entriesOf entries, rest) :=
    inlineRest_append htakes hpairs hfuel (by simpa using hkeys)
  rw [List.append_assoc, List.cons_append, inlineTable,
    bind_of_eq_some (blanks_append hb (leaves_cons (isBlank_of_isBareKey hc) _)),
    bind_of_eq_some (peek_cons _ _), if_neg hbrace, bind_of_eq_some (rounds_eq _)]
  exact bind_of_eq_some hread

/-- **Values.** A written value is read as the node of its tree, if what stands behind it
does not go on with it. -/
theorem takes_value (n : Nat) : Takes (value n) (Written n) := by
  induction n with
  | zero => exact ⟨startsValue_of_written, fun h hrest => valueWith_scalar h hrest _ _⟩
  | succ n ih =>
    refine ⟨startsValue_of_written, ?_⟩
    intro tree s rest h hrest
    cases h with
    | scalar h => exact valueWith_scalar h hrest _ _
    | @array items s h =>
      have hfuel : items.length < (s ++ rest).length + 1 := by
        have hlt := length_lt_of_writtenItems h ih.starts
        rw [List.length_append]
        omega
      change (do return Node.list (← arrayRest (value n) (← rounds)) : Reader Node) (s ++ rest) = _
      rw [bind_of_eq_some (rounds_eq _)]
      exact bind_of_eq_some (arrayRest_append ih h hfuel)
    | empty hb =>
      rw [List.cons_append, List.append_assoc, List.singleton_append]
      exact inlineTable_empty hb rest
    | braces h hkeys => exact inlineTable_append ih h hkeys rest

end Reader

/-! ## The finished tree -/

/-- A key without quotes is not the mark of a date. -/
theorem ne_dateMark_of_isBare {key : Text} (h : IsBare key) : key ≠ dateMark := by
  rintro rfl
  exact absurd h.bare (by decide)

theorem toTree?_scalar {tree : Tree} {s : Text} (h : WrittenScalar tree s) :
    (nodeOf tree).toTree? = some tree := by
  cases h <;> rfl

variable {one : Tree → Text → Prop}

theorem nodesToTrees?_nodesOf {items : List Tree}
    (h : ∀ item ∈ items, (nodeOf item).toTree? = some item) :
    nodesToTrees? (nodesOf items) = some items := by
  induction items with
  | nil => rfl
  | cons item rest ih =>
    rw [List.forall_mem_cons] at h
    rw [nodesOf, nodesToTrees?, h.1, ih h.2]
    rfl

theorem entriesToTable?_entriesOf {entries : Table}
    (h : ∀ entry ∈ entries, (nodeOf entry.2).toTree? = some entry.2) :
    entriesToTable? (entriesOf entries) = some entries := by
  induction entries with
  | nil => rfl
  | cons entry rest ih =>
    obtain ⟨key, tree⟩ := entry
    rw [List.forall_mem_cons] at h
    rw [entriesOf, entriesToTable?, h.1, ih h.2]
    rfl

/-- A table without the mark of a date is finished entry by entry. -/
theorem toTree?_table {origin : Origin} {entries : Table} {nodes : Entries}
    (hnodes : entriesToTable? nodes = some entries)
    (hmark : ∀ entry ∈ nodes, entry.1 ≠ dateMark) :
    (Node.table origin nodes).toTree? = some (.table entries) := by
  rw [Node.toTree?]
  cases nodes with
  | nil =>
    cases hnodes
    rfl
  | cons entry rest =>
    obtain ⟨key, node⟩ := entry
    have hkey : key ≠ dateMark := hmark _ List.mem_cons_self
    simp [hkey, hnodes]

/-- A table of finished values under keys without quotes, however it came to be. -/
theorem toTree?_entriesOf {entries : Table}
    (h : ∀ entry ∈ entries, IsBare entry.1 ∧ (nodeOf entry.2).toTree? = some entry.2)
    (origin : Origin) :
    (Node.table origin (entriesOf entries)).toTree? = some (.table entries) := by
  apply toTree?_table
  · exact entriesToTable?_entriesOf fun entry hentry => (h entry hentry).2
  · intro entry hentry
    have hkey : entry.1 ∈ (entriesOf entries).map Prod.fst := List.mem_map_of_mem hentry
    rw [map_fst_entriesOf] at hkey
    obtain ⟨pair, hpair, heq⟩ := List.mem_map.mp hkey
    exact heq ▸ ne_dateMark_of_isBare (h pair hpair).1

theorem forall_mem_of_writtenItems {items : List Tree} {s : Text} {P : Tree → Prop}
    (h : WrittenItems one items s) (hone : ∀ {tree s}, one tree s → P tree) :
    ∀ item ∈ items, P item := by
  induction h with
  | close hg => simp
  | last hg hitem hg' => simpa using hone hitem
  | cons hg hitem hg' h ih => exact List.forall_mem_cons.mpr ⟨hone hitem, ih⟩

theorem forall_mem_of_writtenPairs {entries : Table} {s : Text} {P : Tree → Prop}
    (h : WrittenPairs one entries s) (hone : ∀ {tree s}, one tree s → P tree) :
    ∀ entry ∈ entries, IsBare entry.1 ∧ P entry.2 := by
  induction h with
  | last hb hkey hb₁ hb₂ htree hb₃ => simpa using ⟨hkey, hone htree⟩
  | cons hb hkey hb₁ hb₂ htree hb₃ h ih =>
    exact List.forall_mem_cons.mpr ⟨⟨hkey, hone htree⟩, ih⟩

/-- The node of a written value is finished as that value. -/
theorem toTree?_nodeOf {n : Nat} {tree : Tree} {s : Text} (h : Written n tree s) :
    (nodeOf tree).toTree? = some tree := by
  induction n generalizing tree s with
  | zero => exact toTree?_scalar h
  | succ n ih =>
    cases h with
    | scalar h => exact toTree?_scalar h
    | array h =>
      rw [nodeOf, Node.toTree?, nodesToTrees?_nodesOf (forall_mem_of_writtenItems h ih)]
      rfl
    | empty hb => rfl
    | braces h hkeys => exact toTree?_entriesOf (forall_mem_of_writtenPairs h ih) .braces

end Toml

end NotebookExtract
