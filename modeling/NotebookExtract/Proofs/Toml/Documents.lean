import Mathlib.Data.List.Forall2
import NotebookExtract.Proofs.Toml.Values

/-!
# Documents of TOML

A written document is read line by line, and its lines build the table that its outline
describes: an entry goes to the end of the table that the last header opened, and lines
whose keys share their first part extend one table. A document with a line that breaks off
is not read at all.
-/

namespace NotebookExtract.Toml

open Settings

/-- What a line says. -/
def Line.statement : Line → Statement
  | .header parents key => .header parents key
  | .entry parents key tree => .entry parents key (nodeOf tree)

namespace Reader

variable {line : Line} {lines last : List Line} {b r p s rest later : Text} {fuel : Nat}

/-! ## The end of a line -/

/-- A text that ends a line, and what stands behind it. -/
inductive EndsLine : Text → Text → Prop where
  | text : EndsLine [] []
  | next {e : Text} (he : LineBreak e) (later : Text) : EndsLine (e ++ later) later

theorem EndsLine.lineEnd_eq (h : EndsLine rest later) : lineEnd rest = some ((), later) := by
  cases h with
  | text => rfl
  | next he later =>
    rw [lineEnd, bind_of_eq_some (peek_eq _)]
    obtain ⟨c, e', rfl, -⟩ := exists_cons_of_lineBreak he
    exact newline_append he later

theorem EndsLine.leaves {q : Char → Bool} (h : EndsLine rest later) (hshort : q '\n' = false)
    (hlong : q '\r' = false) : Leaves q rest := by
  cases h with
  | text => exact leaves_nil q
  | next he later => exact leaves_lineBreak he hshort hlong later

theorem EndsLine.stops (h : EndsLine rest later) : Stops rest := by
  cases h with
  | text => intro c hc; cases hc
  | next he later => exact stops_lineBreak he later

theorem EndsLine.lineTail_eq (h : EndsLine rest later) (hb : IsBlanks b) (hr : WrittenRemark r) :
    lineTail (b ++ (r ++ rest)) = some ((), later) := by
  rw [lineTail_append hb hr (h.leaves (by decide) (by decide)), h.lineEnd_eq]

/-! ## Lines that say something -/

/-- A dotted key without the blanks before it. -/
theorem exists_blanks_of_writtenKey {keys : List Text} (h : WrittenKey keys s) :
    ∃ b c s', s = b ++ c :: s' ∧ IsBlanks b ∧ isBareKey c = true ∧ WrittenKey keys (c :: s') := by
  have hnone : IsBlanks [] := rfl
  cases h with
  | last hb hkey hb' =>
    have hwritten := WrittenKey.last hnone hkey hb'
    obtain ⟨c, later, rfl, hc⟩ := exists_cons_of_isBare hkey
    exact ⟨_, c, _, rfl, hb, hc, hwritten⟩
  | cons hb hkey hb' h =>
    have hwritten := WrittenKey.cons hnone hkey hb' h
    obtain ⟨c, later, rfl, hc⟩ := exists_cons_of_isBare hkey
    exact ⟨_, c, _, rfl, hb, hc, hwritten⟩

/-- A key starts with a blank or with a character of its own. -/
theorem leaves_blanks_bare {q : Char → Bool} {c : Char} (hb : IsBlanks b) (hc : isBareKey c = true)
    (hblank : ∀ c, isBlank c = true → q c = false) (hbare : ∀ c, isBareKey c = true → q c = false)
    (s : Text) : Leaves q (b ++ c :: s) :=
  leaves_blanks_append hb hblank (leaves_cons (hbare c hc) s)

/-- A bracket with a key behind it is no double bracket. -/
theorem looksAt_brackets {c : Char} (hb : IsBlanks b) (hc : isBareKey c = true) (s : Text) :
    looksAt ['[', '['] ('[' :: (b ++ c :: s)) = some (false, '[' :: (b ++ c :: s)) := by
  have hleaves : Leaves (· == '[') (b ++ c :: s) := by
    apply leaves_blanks_bare hb hc
    · intro d hd
      rw [beq_eq_false_iff_ne]
      rintro rfl
      exact absurd hd (by decide)
    · intro d hd
      rw [beq_eq_false_iff_ne]
      rintro rfl
      exact absurd hd (by decide)
  have hprefix : ['[', '['].isPrefixOf ('[' :: (b ++ c :: s)) = false := by
    rw [← Bool.not_eq_true, List.isPrefixOf_iff_prefix]
    rintro ⟨tail, htail⟩
    have hhead : '[' :: tail = b ++ c :: s := List.cons_inj_right '[' |>.mp htail
    rw [← hhead] at hleaves
    exact absurd (hleaves '[' rfl) (by decide)
  rw [looksAt, hprefix]

theorem entryLine_append {parents : List Text} {key b' v : Text} {tree : Tree}
    (hkey : WrittenKey (parents ++ [key]) s) (hlength : parents.length < nestingLimit)
    (hb : IsBlanks b) (hvalue : Written nestingLimit tree v) (hb' : IsBlanks b')
    (hr : WrittenRemark r) (hend : EndsLine rest later) :
    entryLine (s ++ '=' :: (b ++ (v ++ (b' ++ (r ++ rest))))) =
      some (.entry parents key (nodeOf tree), later) := by
  have hstart : StartsValue (v ++ (b' ++ (r ++ rest))) := (startsValue_of_written hvalue).append _
  have hblank : Leaves isBlank (v ++ (b' ++ (r ++ rest))) :=
    leaves_of_imp (fun _ => opensGap_of_isBlank)
      (hstart.leaves (fun _ => isDigit_of_opensGap) (by decide))
  have hstops : Stops (b' ++ (r ++ rest)) := stops_blanks hb' (stops_remark hr hend.stops)
  rw [entryLine, bind_of_eq_some (key_append hkey hlength (endsKey_cons (Or.inl rfl) _))]
  dsimp only
  rw [bind_of_eq_some (word_cons '=' _), bind_of_eq_some (blanks_append hb hblank),
    bind_of_eq_some ((takes_value nestingLimit).reads hvalue hstops),
    bind_of_eq_some (hend.lineTail_eq hb' hr)]
  rfl

theorem headerLine_append {parents : List Text} {key : Text}
    (hkey : WrittenKey (parents ++ [key]) s) (hlength : parents.length < nestingLimit)
    (hb : IsBlanks b) (hr : WrittenRemark r) (hend : EndsLine rest later) :
    headerLine ('[' :: (s ++ ']' :: (b ++ (r ++ rest)))) = some (.header parents key, later) := by
  have hlooks : looksAt ['[', '['] ('[' :: (s ++ ']' :: (b ++ (r ++ rest)))) =
      some (false, '[' :: (s ++ ']' :: (b ++ (r ++ rest)))) := by
    obtain ⟨b, c, s', rfl, hb, hc, -⟩ := exists_blanks_of_writtenKey hkey
    rw [List.append_assoc]
    exact looksAt_brackets hb hc _
  rw [headerLine, bind_of_eq_some hlooks, if_neg Bool.false_ne_true,
    bind_of_eq_some (word_cons '[' _),
    bind_of_eq_some (key_append hkey hlength (endsKey_cons (Or.inr rfl) _))]
  dsimp only
  rw [bind_of_eq_some (word_cons ']' _), bind_of_eq_some (hend.lineTail_eq hb hr)]
  rfl

/-! ## The lines of a document -/

/-- A line that starts with a key is an entry. -/
theorem statements_entry {c : Char} (hb : IsBlanks b) (hc : isBareKey c = true) :
    statements (fuel + 1) (b ++ c :: s) =
      (do
        let line ← entryLine
        return line :: (← statements fuel) : Reader (List Statement)) (c :: s) := by
  have hne : c ≠ '#' ∧ c ≠ '\n' ∧ c ≠ '\r' ∧ c ≠ '[' := by
    refine ⟨?_, ?_, ?_, ?_⟩ <;> rintro rfl <;> exact absurd hc (by decide)
  rw [statements, bind_of_eq_some (blanks_append hb (leaves_cons (isBlank_of_isBareKey hc) _)),
    bind_of_eq_some (peek_cons _ _)]
  simp [hne]

/-- A line that says something is read, and the document goes on behind it. -/
theorem statements_line (h : WrittenLine line p) (hend : EndsLine rest later) :
    statements (fuel + 1) (p ++ rest) =
      (statements fuel later).map fun out => (line.statement :: out.1, out.2) := by
  cases h with
  | header hb hkey hlength hb' hr =>
    simp only [List.append_assoc, List.cons_append]
    rw [statements, bind_of_eq_some (blanks_append hb (leaves_cons (by decide) _)),
      bind_of_eq_some (peek_cons _ _)]
    exact (bind_of_eq_some (headerLine_append hkey hlength hb' hr hend)).trans (bind_cons _ _ _)
  | entry hkey hlength hb hvalue hb' hr =>
    obtain ⟨b₀, c, s', rfl, hb₀, hc, hkey⟩ := exists_blanks_of_writtenKey hkey
    have hread := entryLine_append hkey hlength hb hvalue hb' hr hend
    simp only [List.append_assoc, List.cons_append] at hread ⊢
    rw [statements_entry hb₀ hc]
    exact (bind_of_eq_some hread).trans (bind_cons _ _ _)

/-- A line that says nothing is passed over. -/
theorem statements_remark {e : Text} (hb : IsBlanks b) (hr : WrittenRemark r) (he : LineBreak e) :
    statements (fuel + 1) (b ++ (r ++ (e ++ later))) = statements fuel later := by
  rw [statements]
  cases hr with
  | absent =>
    rw [List.nil_append, bind_of_eq_some (blanks_append hb (leaves_lineBreak he rfl rfl _)),
      bind_of_eq_some (peek_eq _)]
    have hnewline := newline_append he later
    obtain ⟨c, e', rfl, rfl | rfl⟩ := exists_cons_of_lineBreak he
    · exact bind_of_eq_some hnewline
    · exact bind_of_eq_some hnewline
  | present hc =>
    have hstop := leaves_lineBreak (p := isCommentChar) he (by decide) (by decide) later
    rw [List.cons_append, bind_of_eq_some (blanks_append hb (leaves_cons rfl _)),
      bind_of_eq_some (peek_cons _ _)]
    exact (bind_of_eq_some (comment_append hc hstop)).trans
      (bind_of_eq_some (EndsLine.next he later).lineEnd_eq)

/-- The lines of a document are read, as far as they go, and no line takes more fuel than it
has characters. -/
theorem statements_lines (h : WrittenLines rest lines s) (hfuel : s.length < fuel) :
    ∃ fuel', rest.length < fuel' ∧ statements fuel s =
      (statements fuel' rest).map fun out => (lines.map Line.statement ++ out.1, out.2) := by
  induction h generalizing fuel with
  | rest => exact ⟨fuel, hfuel, by simp⟩
  | @remark _ _ _ s _ hb hr he h ih =>
    obtain ⟨fuel, rfl⟩ := Nat.exists_eq_add_one_of_ne_zero (Nat.ne_zero_of_lt hfuel)
    have hlater : s.length < fuel := by
      have hpos := length_pos_of_lineBreak he
      simp only [List.length_append] at hfuel
      omega
    obtain ⟨fuel', hless, hread⟩ := ih hlater
    exact ⟨fuel', hless, (statements_remark hb hr he).trans hread⟩
  | @cons _ _ s _ _ hline he h ih =>
    obtain ⟨fuel, rfl⟩ := Nat.exists_eq_add_one_of_ne_zero (Nat.ne_zero_of_lt hfuel)
    have hlater : s.length < fuel := by
      have hpos := length_pos_of_lineBreak he
      simp only [List.length_append] at hfuel
      omega
    obtain ⟨fuel', hless, hread⟩ := ih hlater
    refine ⟨fuel', hless, ?_⟩
    rw [statements_line hline (.next he _), hread]
    cases statements fuel' rest <;> rfl

theorem length_pos_of_writtenLine (h : WrittenLine line p) : 0 < p.length := by
  cases h <;> simp only [List.length_append, List.length_cons] <;> omega

/-- The last line of a document is read up to the end. -/
theorem statements_last (h : WrittenLast last rest) (hfuel : rest.length < fuel) :
    statements fuel rest = some (last.map Line.statement, []) := by
  obtain ⟨fuel, rfl⟩ := Nat.exists_eq_add_one_of_ne_zero (Nat.ne_zero_of_lt hfuel)
  cases h with
  | remark hb hr =>
    cases hr with
    | absent =>
      rw [statements, bind_of_eq_some (blanks_append hb (leaves_nil _))]
      rfl
    | @present c hc =>
      obtain ⟨fuel, rfl⟩ : ∃ n, fuel = n + 1 := by
        apply Nat.exists_eq_add_one_of_ne_zero
        rintro rfl
        simp at hfuel
      have hcomment := comment_append hc (leaves_nil isCommentChar)
      rw [List.append_nil] at hcomment
      rw [statements, bind_of_eq_some (blanks_append hb (leaves_cons rfl _)),
        bind_of_eq_some (peek_cons _ _)]
      exact bind_of_eq_some hcomment
  | line h =>
    obtain ⟨fuel, rfl⟩ : ∃ n, fuel = n + 1 := by
      apply Nat.exists_eq_add_one_of_ne_zero
      rintro rfl
      have hpos := length_pos_of_writtenLine h
      omega
    rw [← List.append_nil rest, statements_line h .text]
    rfl

/-- A key that nothing follows with which it could go on. -/
theorem key_of_breaksOff {name b' : Text} (hb : IsBlanks b) (hkey : IsBare name)
    (hb' : IsBlanks b') (hrest : ∀ c ∈ rest.head?, c ≠ '.' ∧ isBlank c = false ∧
      (isBareKey c = true → b' ≠ [])) :
    key (b ++ (name ++ (b' ++ rest))) = some (([], name), rest) := by
  have hblank : Leaves isBlank rest := fun c hc => (hrest c hc).2.1
  have hdot : rest.head? ≠ some '.' := fun hhead => (hrest '.' hhead).1 rfl
  have hbare : Leaves isBareKey (b' ++ rest) := by
    cases b' with
    | nil =>
      intro c hc
      rw [← Bool.not_eq_true]
      intro hcbare
      exact (hrest c hc).2.2 hcbare rfl
    | cons c b' =>
      rw [IsBlanks, List.all_cons, Bool.and_eq_true] at hb'
      exact leaves_cons (isBareKey_of_isBlank hb'.1) _
  have hparts : keyParts nestingLimit (b ++ (name ++ (b' ++ rest))) = some ([name], rest) :=
    keyParts_last hb hkey hb' hblank hbare hdot
  rw [key, bind_of_eq_some hparts]
  rfl

/-- A line that breaks off is not read. -/
theorem statements_of_breaksOff (h : BreaksOff rest) (fuel : Nat) :
    statements fuel rest = none := by
  cases fuel with
  | zero => rfl
  | succ fuel =>
    cases h with
    | @entry _ _ _ rest hb hkey hb' hrest =>
      have hread := key_of_breaksOff (b := []) rfl hkey hb' fun c hc => (hrest c hc).2
      have hequals : rest.head? ≠ some '=' := fun hhead => (hrest '=' hhead).1 rfl
      obtain ⟨c, later, rfl, hc⟩ := exists_cons_of_isBare hkey
      rw [List.nil_append, List.cons_append] at hread
      rw [List.cons_append, statements_entry hb hc]
      apply bind_of_eq_none
      rw [entryLine, bind_of_eq_some hread]
      exact bind_of_eq_none (word_singleton_eq_none hequals)
    | @header _ _ _ _ rest hb₀ hb hkey hb' hrest =>
      have hread := key_of_breaksOff hb hkey hb' fun c hc => (hrest c hc).2
      have hbracket : rest.head? ≠ some ']' := fun hhead => (hrest ']' hhead).1 rfl
      obtain ⟨c, later, rfl, hc⟩ := exists_cons_of_isBare hkey
      rw [List.cons_append] at hread ⊢
      rw [statements, bind_of_eq_some (blanks_append hb₀ (leaves_cons (by decide) _)),
        bind_of_eq_some (peek_cons _ _)]
      apply bind_of_eq_none
      rw [headerLine, bind_of_eq_some (looksAt_brackets hb hc _), if_neg Bool.false_ne_true,
        bind_of_eq_some (word_cons '[' _), bind_of_eq_some hread]
      exact bind_of_eq_none (word_singleton_eq_none hbracket)

/-! ## The mark before the lines -/

/-- The byte order mark. -/
def isMark (c : Char) : Bool := c == '\ufeff'

theorem isMark_of_isBlank {c : Char} (h : isBlank c = true) : isMark c = false := by
  rw [isMark, beq_eq_false_iff_ne]
  rintro rfl
  exact absurd h (by decide)

theorem isMark_of_isBareKey {c : Char} (h : isBareKey c = true) : isMark c = false := by
  rw [isMark, beq_eq_false_iff_ne]
  rintro rfl
  exact absurd h (by decide)

theorem leaves_writtenLine (h : WrittenLine line p) (rest : Text) : Leaves isMark (p ++ rest) := by
  cases h with
  | header hb hkey hlength hb' hr =>
    rw [List.append_assoc]
    exact leaves_blanks_append hb (fun _ => isMark_of_isBlank) (leaves_cons (by decide) _)
  | entry hkey hlength hb hvalue hb' hr =>
    obtain ⟨b₀, c, s', rfl, hb₀, hc, -⟩ := exists_blanks_of_writtenKey hkey
    simp only [List.append_assoc, List.cons_append]
    exact leaves_blanks_bare hb₀ hc (fun _ => isMark_of_isBlank) (fun _ => isMark_of_isBareKey) _

theorem leaves_remark (hb : IsBlanks b) (hr : WrittenRemark r) (hrest : Leaves isMark rest) :
    Leaves isMark (b ++ (r ++ rest)) := by
  apply leaves_blanks_append hb (fun _ => isMark_of_isBlank)
  cases hr with
  | absent => exact hrest
  | present hc => exact leaves_cons (by decide) _

theorem leaves_writtenLast (h : WrittenLast last rest) : Leaves isMark rest := by
  cases h with
  | remark hb hr => simpa using leaves_remark hb hr (leaves_nil isMark)
  | line h => simpa using leaves_writtenLine h []

theorem leaves_breaksOff (h : BreaksOff rest) : Leaves isMark rest := by
  cases h with
  | entry hb hkey hb' hrest =>
    obtain ⟨c, later, rfl, hc⟩ := exists_cons_of_isBare hkey
    exact leaves_blanks_bare hb hc (fun _ => isMark_of_isBlank) (fun _ => isMark_of_isBareKey) _
  | header hb₀ hb hkey hb' hrest =>
    exact leaves_blanks_append hb₀ (fun _ => isMark_of_isBlank) (leaves_cons (by decide) _)

theorem leaves_writtenLines (h : WrittenLines rest lines s) (hrest : Leaves isMark rest) :
    Leaves isMark s := by
  cases h with
  | rest => exact hrest
  | remark hb hr he h =>
    exact leaves_remark hb hr (leaves_lineBreak he (by decide) (by decide) _)
  | cons hline he h => exact leaves_writtenLine hline _

end Reader

/-- The mark is dropped, and nothing else is. -/
theorem dropMark_append {mark s : Text} (hmark : WrittenMark mark)
    (hs : Reader.Leaves Reader.isMark s) : dropMark (mark ++ s) = s := by
  cases hmark with
  | present => rfl
  | absent =>
    rw [List.nil_append]
    unfold dropMark
    split
    · exact absurd (hs _ rfl) (by decide)
    · rfl

/-- A written document has the statements of its lines. -/
theorem statements_of_writtenDocument {lines : List Line} {text : Text}
    (h : WrittenDocument lines text) :
    Reader.statements (text.length + 1) (dropMark text) =
      some (lines.map Line.statement, []) := by
  cases h with
  | @mk lines last mark rest s hmark hlines hlast =>
    have hmarkless := Reader.leaves_writtenLines hlines (Reader.leaves_writtenLast hlast)
    have hfuel : s.length < (mark ++ s).length + 1 := by
      rw [List.length_append]
      omega
    obtain ⟨fuel', hless, hread⟩ := Reader.statements_lines hlines hfuel
    rw [dropMark_append hmark hmarkless, hread, Reader.statements_last hlast hless]
    simp

/-- A document with a line that breaks off is no TOML. -/
theorem parse?_of_writtenBroken {text : Text} (h : WrittenBroken text) : parse? text = none := by
  cases h with
  | @mk lines mark rest s hmark hlines hrest =>
    have hmarkless := Reader.leaves_writtenLines hlines (Reader.leaves_breaksOff hrest)
    have hfuel : s.length < (mark ++ s).length + 1 := by
      rw [List.length_append]
      omega
    obtain ⟨fuel', -, hread⟩ := Reader.statements_lines hlines hfuel
    rw [parse?, dropMark_append hmark hmarkless, hread, Reader.statements_of_breaksOff hrest]
    rfl

/-! ## The table that the lines build -/

variable {front inner : Entries} {key : Text} {origin : Origin}

theorem lookup_append_singleton (h : key ∉ front.map Prod.fst) (node : Node) :
    (front ++ [(key, node)]).lookup key = some node := by
  rw [List.lookup_append, Association.lookup_of_not_mem h]
  simp

/-- A change of the last table. -/
theorem editAt_last {made : Origin} {edit : Origin → Entries → Option Entries}
    (h : key ∉ front.map Prod.fst)
    (hopen : ¬(origin = .braces ∨ (made = .dotted ∧ origin = .header))) (above : Origin) :
    editAt made edit [key] above (front ++ [(key, .table origin inner)]) =
      (edit origin inner).map fun after => front ++ [(key, .table origin after)] := by
  rw [editAt, lookup_append_singleton h]
  simp only [if_neg hopen, editAt]
  cases edit origin inner with
  | none => rfl
  | some after => simp [Association.put_append_singleton h]

/-- Entries go one after the other to the end of a table, if each one does. -/
theorem build_entries {current : List Text} {line : Text × Tree → Statement}
    (hstep : ∀ (entry : Text × Tree) (inner : Entries) (rest : List Statement),
      entry.1 ∉ inner.map Prod.fst →
        build (line entry :: rest) current (front ++ [(key, .table origin inner)]) =
          build rest current
            (front ++ [(key, .table origin (inner ++ [(entry.1, nodeOf entry.2)]))]))
    {entries : Table} (hkeys : (inner.map Prod.fst ++ entries.map Prod.fst).Nodup)
    (rest : List Statement) :
    build (entries.map line ++ rest) current (front ++ [(key, .table origin inner)]) =
      build rest current (front ++ [(key, .table origin (inner ++ entriesOf entries))]) := by
  induction entries generalizing inner with
  | nil => simp [entriesOf]
  | cons entry entries ih =>
    rw [List.map_cons, List.cons_append, hstep entry inner _ (not_mem_of_nodup_append_cons hkeys),
      ih (by simpa using hkeys)]
    simp [entriesOf]

theorem build_dotted_entry (h : key ∉ front.map Prod.fst) (entry : Text × Tree) (inner : Entries)
    (rest : List Statement) (hnew : entry.1 ∉ inner.map Prod.fst) :
    build (.entry [key] entry.1 (nodeOf entry.2) :: rest) []
        (front ++ [(key, .table .dotted inner)]) =
      build rest [] (front ++ [(key, .table .dotted (inner ++ [(entry.1, nodeOf entry.2)]))]) := by
  have hlookup := Association.lookup_of_not_mem hnew
  have hinsert : insertDotted [key] entry.1 (nodeOf entry.2)
      (front ++ [(key, .table .dotted inner)]) =
        some (front ++ [(key, .table .dotted (inner ++ [(entry.1, nodeOf entry.2)]))]) := by
    rw [insertDotted, editAt_last h (by decide)]
    simp [hlookup, Association.put_of_not_mem hnew]
  simp [build, editAt, hinsert]

theorem build_table_entry (h : key ∉ front.map Prod.fst) (entry : Text × Tree) (inner : Entries)
    (rest : List Statement) (hnew : entry.1 ∉ inner.map Prod.fst) :
    build (.entry [] entry.1 (nodeOf entry.2) :: rest) [key]
        (front ++ [(key, .table .header inner)]) =
      build rest [key]
        (front ++ [(key, .table .header (inner ++ [(entry.1, nodeOf entry.2)]))]) := by
  rw [build, editAt_last h (by decide), insertDotted_nil hnew]
  rfl

/-- What a part is while the document grows. -/
def Part.node : Part → Text × Node
  | .entry key tree => (key, nodeOf tree)
  | .dotted key first others => (key, .table .dotted (entriesOf (first :: others)))

/-- The first of the lines whose keys share their first part makes its table. -/
theorem insertDotted_first (h : key ∉ front.map Prod.fst) (name : Text) (node : Node) :
    insertDotted [key] name node front =
      some (front ++ [(key, .table .dotted [(name, node)])]) := by
  have hlookup := Association.lookup_of_not_mem h
  simp [insertDotted, editAt, hlookup, Association.put, Association.put_of_not_mem h]

/-- The lines of a part add it at the end. -/
theorem build_part {part : Part} (hkey : part.pair.1 ∉ front.map Prod.fst) (hpart : part.Distinct)
    (rest : List Statement) :
    build (part.lines.map Line.statement ++ rest) [] front =
      build rest [] (front ++ [part.node]) := by
  cases part with
  | entry key tree =>
    have hnew : key ∉ front.map Prod.fst := hkey
    simp [Part.lines, Line.statement, build, editAt, insertDotted_nil hnew, Part.node]
  | dotted key first others =>
    have hnew : key ∉ front.map Prod.fst := hkey
    have hkeys : (([(first.1, nodeOf first.2)] : Entries).map Prod.fst ++
        others.map Prod.fst).Nodup := hpart
    have hothers := build_entries (build_dotted_entry hnew) hkeys rest
    simpa [Part.lines, Line.statement, build, editAt, insertDotted_first hnew, Part.node,
      entriesOf, Function.comp_def] using hothers

theorem build_parts {parts : List Part}
    (hkeys : (front.map Prod.fst ++ (parts.map Part.pair).map Prod.fst).Nodup)
    (hparts : ∀ part ∈ parts, part.Distinct) (rest : List Statement) :
    build ((parts.flatMap Part.lines).map Line.statement ++ rest) [] front =
      build rest [] (front ++ parts.map Part.node) := by
  induction parts generalizing front with
  | nil => simp
  | cons part parts ih =>
    have hnew : part.pair.1 ∉ front.map Prod.fst := not_mem_of_nodup_append_cons hkeys
    have hfst : part.node.1 = part.pair.1 := by cases part <;> rfl
    rw [List.forall_mem_cons] at hparts
    rw [List.flatMap_cons, List.map_append, List.append_assoc, build_part hnew hparts.1,
      ih (by simpa [hfst] using hkeys) hparts.2]
    simp

/-- What the table of a header is while the document grows. -/
def tableNode (table : Text × Table) : Text × Node :=
  (table.1, .table .header (entriesOf table.2))

/-- A header and the lines under it add their table at the end. -/
theorem build_table {table : Text × Table} (hkey : table.1 ∉ front.map Prod.fst)
    (htable : (table.2.map Prod.fst).Nodup) (current : List Text) (rest : List Statement) :
    build ((Outline.tableLines table).map Line.statement ++ rest) current front =
      build rest [table.1] (front ++ [tableNode table]) := by
  have hopen : openTable [] table.1 front = some (front ++ [(table.1, .table .header [])]) := by
    have hlookup := Association.lookup_of_not_mem hkey
    simp [openTable, editAt, hlookup, Association.put_of_not_mem hkey]
  have hkeys : (([] : Entries).map Prod.fst ++ table.2.map Prod.fst).Nodup := htable
  have hentries := build_entries (build_table_entry hkey) hkeys rest
  simpa [Outline.tableLines, Line.statement, build, hopen, tableNode, Function.comp_def]
    using hentries

theorem build_tables {tables : List (Text × Table)}
    (hkeys : (front.map Prod.fst ++ tables.map Prod.fst).Nodup)
    (htables : ∀ table ∈ tables, (table.2.map Prod.fst).Nodup) (current : List Text) :
    build ((tables.flatMap Outline.tableLines).map Line.statement) current front =
      some (front ++ tables.map tableNode) := by
  induction tables generalizing front current with
  | nil => simp [build]
  | cons table tables ih =>
    have hnew : table.1 ∉ front.map Prod.fst := not_mem_of_nodup_append_cons hkeys
    rw [List.forall_mem_cons] at htables
    rw [List.flatMap_cons, List.map_append, build_table hnew htables.1,
      ih (by simpa [tableNode] using hkeys) htables.2]
    simp

/-- The lines of an outline without repeated keys build its parts and its tables. -/
theorem build_outline {outline : Outline} (h : outline.Distinct) :
    build (outline.lines.map Line.statement) [] [] =
      some (outline.parts.map Part.node ++ outline.tables.map tableNode) := by
  have hkeys : ((outline.parts.map Part.pair).map Prod.fst ++
      outline.tables.map Prod.fst).Nodup := by
    simpa [Outline.table, Function.comp_def] using h.keys
  have hparts : (([] : Entries).map Prod.fst ++
      (outline.parts.map Part.pair).map Prod.fst).Nodup := (List.nodup_append.mp hkeys).1
  have hfst : (outline.parts.map Part.node).map Prod.fst =
      (outline.parts.map Part.pair).map Prod.fst := by
    rw [List.map_map, List.map_map]
    exact List.map_congr_left fun part _ => by cases part <;> rfl
  rw [Outline.lines, List.map_append, build_parts hparts h.parts, List.nil_append,
    build_tables (hfst ▸ hkeys) h.tables]

/-! ## The finished table -/

/-- What is known of a line that is written: its keys have no quotes, and the node of its
value is finished as that value. -/
def Line.IsPlain : Line → Prop
  | .header parents key => ∀ part ∈ parents ++ [key], IsBare part
  | .entry parents key tree =>
    (∀ part ∈ parents ++ [key], IsBare part) ∧ (nodeOf tree).toTree? = some tree

theorem isBare_of_writtenKey {keys : List Text} {s : Text} (h : WrittenKey keys s) :
    ∀ key ∈ keys, IsBare key := by
  induction h with
  | last hb hkey hb' => simpa using hkey
  | cons hb hkey hb' h ih => exact List.forall_mem_cons.mpr ⟨hkey, ih⟩

theorem isPlain_of_writtenLine {line : Line} {p : Text} (h : WrittenLine line p) :
    line.IsPlain := by
  cases h with
  | header hb hkey hlength hb' hr => exact isBare_of_writtenKey hkey
  | entry hkey hlength hb hvalue hb' hr =>
    exact ⟨isBare_of_writtenKey hkey, toTree?_nodeOf hvalue⟩

theorem isPlain_of_writtenDocument {lines : List Line} {text : Text}
    (h : WrittenDocument lines text) : ∀ line ∈ lines, line.IsPlain := by
  cases h with
  | mk hmark hlines hlast =>
    refine List.forall_mem_append.mpr ⟨?_, ?_⟩
    · clear hlast
      induction hlines with
      | rest => simp
      | remark hb hr he h ih => exact ih
      | cons hline he h ih => exact List.forall_mem_cons.mpr ⟨isPlain_of_writtenLine hline, ih⟩
    · cases hlast with
      | remark hb hr => simp
      | line h => simpa using isPlain_of_writtenLine h

/-- Entries are finished one by one. -/
theorem entriesToTable?_of_forall₂ {nodes : Entries} {table : Table}
    (h : List.Forall₂ (fun node pair => node.1 = pair.1 ∧ node.2.toTree? = some pair.2)
      nodes table) :
    entriesToTable? nodes = some table := by
  induction h with
  | nil => rfl
  | @cons node pair nodes table hhead htail ih =>
    obtain ⟨key, node⟩ := node
    obtain ⟨key', tree⟩ := pair
    obtain ⟨rfl, htree⟩ := hhead
    rw [entriesToTable?, htree, ih]
    rfl

/-- A part whose lines are plain is finished as what it sets. -/
theorem Part.finished {part : Part} (h : ∀ line ∈ part.lines, line.IsPlain) :
    IsBare part.node.1 ∧ part.node.1 = part.pair.1 ∧
      part.node.2.toTree? = some part.pair.2 := by
  cases part with
  | entry key tree =>
    obtain ⟨hbare, htree⟩ := h _ List.mem_cons_self
    exact ⟨hbare key (by simp), rfl, htree⟩
  | dotted key first others =>
    have hplain : ∀ entry ∈ first :: others, (Line.entry [key] entry.1 entry.2).IsPlain :=
      fun entry hentry => h _ (List.mem_map_of_mem hentry)
    refine ⟨(hplain first List.mem_cons_self).1 key (by simp), rfl, ?_⟩
    apply toTree?_entriesOf
    intro entry hentry
    obtain ⟨hbare, htree⟩ := hplain entry hentry
    exact ⟨hbare entry.1 (by simp), htree⟩

/-- So is the table of a header. -/
theorem tableNode_finished {table : Text × Table}
    (h : ∀ line ∈ Outline.tableLines table, line.IsPlain) :
    IsBare table.1 ∧ (tableNode table).2.toTree? = some (.table table.2) := by
  obtain ⟨hheader, hlines⟩ := List.forall_mem_cons.mp h
  refine ⟨hheader table.1 (by simp), ?_⟩
  apply toTree?_entriesOf
  intro entry hentry
  obtain ⟨hbare, htree⟩ := hlines _ (List.mem_map_of_mem hentry)
  exact ⟨hbare entry.1 (by simp), htree⟩

/-- **Documents.** A written document whose outline gives no key twice is TOML, and its table
is that of the outline. -/
theorem parse?_of_writtenDocument {outline : Outline} {text : Text} (hdistinct : outline.Distinct)
    (h : WrittenDocument outline.lines text) : parse? text = some outline.table := by
  have hplain := isPlain_of_writtenDocument h
  have hparts : ∀ part ∈ outline.parts, IsBare part.node.1 ∧ part.node.1 = part.pair.1 ∧
      part.node.2.toTree? = some part.pair.2 := by
    intro part hpart
    apply Part.finished
    intro line hline
    exact hplain line (List.mem_append_left _ (List.mem_flatMap.mpr ⟨part, hpart, hline⟩))
  have htables : ∀ table ∈ outline.tables,
      IsBare table.1 ∧ (tableNode table).2.toTree? = some (.table table.2) := by
    intro table htable
    apply tableNode_finished
    intro line hline
    exact hplain line (List.mem_append_right _ (List.mem_flatMap.mpr ⟨table, htable, hline⟩))
  have hfinished : entriesToTable? (outline.parts.map Part.node ++ outline.tables.map tableNode) =
      some outline.table := by
    apply entriesToTable?_of_forall₂
    refine List.rel_append ?_ ?_
    · rw [List.forall₂_map_left_iff, List.forall₂_map_right_iff, List.forall₂_same]
      exact fun part hpart => (hparts part hpart).2
    · rw [List.forall₂_map_left_iff, List.forall₂_map_right_iff, List.forall₂_same]
      exact fun table htable => ⟨rfl, (htables table htable).2⟩
  have hmark : ∀ entry ∈ outline.parts.map Part.node ++ outline.tables.map tableNode,
      entry.1 ≠ dateMark := by
    intro entry hentry
    apply ne_dateMark_of_isBare
    rcases List.mem_append.mp hentry with hmem | hmem
    · obtain ⟨part, hpart, rfl⟩ := List.mem_map.mp hmem
      exact (hparts part hpart).1
    · obtain ⟨table, htable, rfl⟩ := List.mem_map.mp hmem
      exact (htables table htable).1
  rw [parse?, statements_of_writtenDocument h]
  simp [build_outline hdistinct, toTree?_table hfinished hmark]

end NotebookExtract.Toml
