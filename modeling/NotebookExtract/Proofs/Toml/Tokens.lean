import Mathlib.Data.List.Basic
import Mathlib.Tactic.SplitIfs
import NotebookExtract.Proofs.Toml.Grammar

/-!
# Tokens of TOML

What the small readers take off a text of the grammar. Each statement has a text behind
the token, which is left as it is; where a reader takes as much as it can, the statement
says what this text may not start with.
-/

namespace NotebookExtract.Toml

namespace Reader

variable {α β : Type}

/-! ## Steps -/

/-- A reader goes on with what the one before it has left. -/
theorem bind_of_eq_some {x : Reader α} {f : α → Reader β} {s rest : Text} {a : α}
    (h : x s = some (a, rest)) : (x >>= f) s = f a rest := by
  change Option.bind (x s) (fun out => f out.1 out.2) = _
  rw [h]
  rfl

/-- A reader fails with the one before it. -/
theorem bind_of_eq_none {x : Reader α} {f : α → Reader β} {s : Text} (h : x s = none) :
    (x >>= f) s = none := by
  change Option.bind (x s) (fun out => f out.1 out.2) = _
  rw [h]
  rfl

/-- A reader that puts an item before what another one reads. -/
theorem bind_cons (x : Reader (List α)) (a : α) (s : Text) :
    (do return a :: (← x) : Reader (List α)) s =
      (x s).map fun out => (a :: out.1, out.2) := by
  change Option.bind (x s) _ = _
  cases x s <;> rfl

theorem pure_eq (a : α) (s : Text) : (pure a : Reader α) s = some (a, s) := rfl

theorem peek_eq (s : Text) : peek s = some (s.head?, s) := rfl

theorem peek_cons (c : Char) (s : Text) : peek (c :: s) = some (some c, c :: s) := rfl

theorem advance_cons (c : Char) (s : Text) : advance (c :: s) = some ((), s) := rfl

theorem rounds_eq (s : Text) : rounds s = some (s.length + 1, s) := rfl

/-- A word is read where it stands. -/
theorem word_append (w rest : Text) : word w (w ++ rest) = some ((), rest) := by
  rw [word, List.isPrefixOf?_eq_some_iff_append_eq.mpr rfl]
  rfl

theorem word_cons (c : Char) (rest : Text) : word [c] (c :: rest) = some ((), rest) :=
  word_append [c] rest

/-- A character is read only where it stands. -/
theorem word_singleton_eq_none {c : Char} {s : Text} (h : s.head? ≠ some c) :
    word [c] s = none := by
  rw [word, Option.map_eq_none_iff, Option.eq_none_iff_forall_ne_some]
  intro rest hrest
  rw [← List.isPrefixOf?_eq_some_iff_append_eq.mp hrest] at h
  exact h rfl

/-- A text with another first character does not go on with a word. -/
theorem looksAt_of_head?_ne {w s : Text} {c : Char} (hw : w.head? = some c)
    (h : s.head? ≠ some c) : looksAt w s = some (false, s) := by
  obtain ⟨w, rfl⟩ := List.head?_eq_some_iff.mp hw
  have hprefix : (c :: w).isPrefixOf s = false := by
    rw [← Bool.not_eq_true, List.isPrefixOf_iff_prefix]
    rintro ⟨tail, rfl⟩
    exact h rfl
  rw [looksAt, hprefix]

/-- The text does not go on with a character of a class. -/
def Leaves (p : Char → Bool) (rest : Text) : Prop := ∀ c ∈ rest.head?, p c = false

theorem leaves_cons {p : Char → Bool} {c : Char} (h : p c = false) (s : Text) :
    Leaves p (c :: s) := by
  intro d hd
  rw [List.head?_cons, Option.mem_some_iff] at hd
  exact hd ▸ h

theorem leaves_nil (p : Char → Bool) : Leaves p [] := by
  intro c hc
  cases hc

/-- A run ends where the text leaves its class. -/
theorem takeRun_append {p : Char → Bool} {run rest : Text} (hrun : run.all p = true)
    (hrest : Leaves p rest) : takeRun p (run ++ rest) = some (run, rest) := by
  have hall : ∀ c ∈ run, p c = true := List.all_eq_true.mp hrun
  have hstop : rest.takeWhile p = [] ∧ rest.dropWhile p = rest := by
    cases rest with
    | nil => exact ⟨rfl, rfl⟩
    | cons c rest =>
      have hc : p c = false := hrest c rfl
      simp [hc]
  rw [takeRun, List.takeWhile_append_of_pos hall, List.dropWhile_append_of_pos hall, hstop.1,
    hstop.2, List.append_nil]

/-! ## Between tokens -/

variable {b r e g rest : Text}

theorem blanks_append (hb : IsBlanks b) (hrest : Leaves isBlank rest) :
    blanks (b ++ rest) = some ((), rest) := by
  rw [blanks, bind_of_eq_some (takeRun_append hb hrest)]
  rfl

theorem newline_append (he : LineBreak e) (rest : Text) :
    newline (e ++ rest) = some ((), rest) := by
  cases he with
  | short => rfl
  | long =>
    change word ['\r', '\n'] (['\r', '\n'] ++ rest) = _
    exact word_append _ rest

/-- The end of a line starts with one of two characters, neither of which a comment may
have. -/
theorem exists_cons_of_lineBreak (he : LineBreak e) :
    ∃ c e', e = c :: e' ∧ (c = '\n' ∨ c = '\r') := by
  cases he with
  | short => exact ⟨_, _, rfl, Or.inl rfl⟩
  | long => exact ⟨_, _, rfl, Or.inr rfl⟩

theorem length_pos_of_lineBreak (he : LineBreak e) : 0 < e.length := by
  cases he <;> simp

theorem leaves_lineBreak {p : Char → Bool} (he : LineBreak e) (hp : p '\n' = false)
    (hp' : p '\r' = false) (rest : Text) : Leaves p (e ++ rest) := by
  cases he with
  | short => exact leaves_cons hp _
  | long => exact leaves_cons hp' _

theorem comment_append {c : Text} (hc : c.all isCommentChar = true)
    (hrest : Leaves isCommentChar rest) : comment ('#' :: (c ++ rest)) = some ((), rest) := by
  rw [comment, bind_of_eq_some (word_cons '#' _), bind_of_eq_some (takeRun_append hc hrest)]
  rfl

theorem isCommentChar_of_isBlank {c : Char} (h : isBlank c = true) : isCommentChar c = true := by
  rw [isBlank, Bool.or_eq_true, beq_iff_eq, beq_iff_eq] at h
  rcases h with rfl | rfl <;> decide

theorem leaves_of_imp {p q : Char → Bool} (h : ∀ c, q c = true → p c = true)
    (hrest : Leaves p rest) : Leaves q rest := by
  intro c hc
  rw [← Bool.not_eq_true]
  intro hq
  exact absurd (h c hq) (by simp [hrest c hc])

theorem lineTail_append (hb : IsBlanks b) (hr : WrittenRemark r)
    (hrest : Leaves isCommentChar rest) : lineTail (b ++ (r ++ rest)) = lineEnd rest := by
  have hblank : Leaves isBlank rest := leaves_of_imp (fun _ => isCommentChar_of_isBlank) hrest
  cases hr with
  | absent =>
    have hhash : rest.head? ≠ some '#' := by
      intro hhead
      exact absurd (hrest '#' hhead) (by decide)
    rw [lineTail, List.nil_append, bind_of_eq_some (blanks_append hb hblank),
      bind_of_eq_some (peek_eq _), if_neg hhash]
  | present hc =>
    rw [lineTail, List.cons_append,
      bind_of_eq_some (blanks_append hb (leaves_cons (by decide) _)),
      bind_of_eq_some (peek_cons _ _), if_pos rfl, bind_of_eq_some (comment_append hc hrest)]

/-- What goes on with a gap of an array. -/
def opensGap (c : Char) : Bool := isBlank c || c == '#' || c == '\n' || c == '\r'

theorem opensGap_of_isBlank {c : Char} (h : isBlank c = true) : opensGap c = true := by
  simp [opensGap, h]

/-- A gap is passed over, whatever lines it has. -/
theorem spread_append {fuel : Nat} (hg : Gap g) (hfuel : g.length < fuel)
    (hrest : Leaves opensGap rest) : spread fuel (g ++ rest) = some ((), rest) := by
  induction hg generalizing fuel with
  | blanks hb =>
    obtain ⟨fuel, rfl⟩ := Nat.exists_eq_add_one_of_ne_zero (Nat.ne_zero_of_lt hfuel)
    have hblank : Leaves isBlank rest := leaves_of_imp (fun _ => opensGap_of_isBlank) hrest
    rw [spread, bind_of_eq_some (blanks_append hb hblank), bind_of_eq_some (peek_eq _)]
    cases rest with
    | nil => rfl
    | cons c rest =>
      have hc : opensGap c = false := hrest c rfl
      simp only [opensGap, Bool.or_eq_false_iff, beq_eq_false_iff_ne] at hc
      simp [hc, pure_eq]
  | @line _ _ _ g hb hr he hg ih =>
    obtain ⟨fuel, rfl⟩ := Nat.exists_eq_add_one_of_ne_zero (Nat.ne_zero_of_lt hfuel)
    have hlater : spread fuel (g ++ rest) = some ((), rest) := by
      apply ih
      have hlength := length_pos_of_lineBreak he
      simp only [List.length_append] at hfuel
      omega
    rw [List.append_assoc, List.append_assoc, List.append_assoc, spread]
    cases hr with
    | absent =>
      rw [List.nil_append, bind_of_eq_some (blanks_append hb (leaves_lineBreak he rfl rfl _)),
        bind_of_eq_some (peek_eq _)]
      obtain ⟨c, e', rfl, rfl | rfl⟩ := exists_cons_of_lineBreak he
      · exact (bind_of_eq_some (newline_append he _)).trans hlater
      · exact (bind_of_eq_some (newline_append he _)).trans hlater
    | present hc =>
      rw [List.cons_append, bind_of_eq_some (blanks_append hb (leaves_cons rfl _)),
        bind_of_eq_some (peek_cons _ _)]
      have hstop := leaves_lineBreak (p := isCommentChar) he (by decide) (by decide)
      exact (bind_of_eq_some (comment_append hc (hstop _))).trans
        ((bind_of_eq_some (newline_append he _)).trans hlater)

/-! ## Strings -/

theorem charOf?_toNat (c : Char) : charOf? c.toNat = some c := by
  have hvalid : c.toNat.isValidChar := c.valid
  rw [charOf?, if_pos hvalid, Char.ofNat_toNat]

theorem exactly_append {p : Char → Bool} {digits : Text} (h : digits.all p = true)
    (rest : Text) : exactly digits.length p (digits ++ rest) = some (digits, rest) := by
  rw [exactly]
  simp [h]

theorem escaped_letter {e c : Char} (h : (e, c) ∈ escapeLetters) (s : Text) :
    escaped (e :: s) = some (c, s) := by
  simp only [escapeLetters, List.mem_cons, Prod.mk.injEq, List.not_mem_nil, or_false] at h
  rcases h with ⟨rfl, rfl⟩ | ⟨rfl, rfl⟩ | ⟨rfl, rfl⟩ | ⟨rfl, rfl⟩ | ⟨rfl, rfl⟩ |
    ⟨rfl, rfl⟩ | ⟨rfl, rfl⟩ <;> rfl

theorem escaped_code {u c : Char} {digits : Text} (hlength : (u, digits.length) ∈ codeLengths)
    (hdigits : digits.all Text.isHexDigit = true) (hvalue : Text.ofDigits 16 digits = c.toNat)
    (s : Text) : escaped (u :: (digits ++ s)) = some (c, s) := by
  have hread := exactly_append hdigits s
  have hchar : (liftM (charOf? (Text.ofDigits 16 digits)) : Reader Char) s = some (c, s) := by
    rw [hvalue, charOf?_toNat]
    rfl
  rw [escaped, bind_of_eq_some (peek_cons _ _), bind_of_eq_some (advance_cons _ _)]
  simp only [codeLengths, List.mem_cons, Prod.mk.injEq, List.not_mem_nil, or_false] at hlength
  rcases hlength with ⟨rfl, hlength⟩ | ⟨rfl, hlength⟩
  · rw [hlength] at hread
    exact (bind_of_eq_some hread).trans hchar
  · rw [hlength] at hread
    exact (bind_of_eq_some hread).trans hchar

/-- A written character is read, and the string goes on behind it. -/
theorem basicRest_cons {c : Char} {p s t : Text} {fuel : Nat} (hc : WrittenChar c p)
    (h : basicRest fuel s = some (t, rest)) :
    basicRest (fuel + 1) (p ++ s) = some (c :: t, rest) := by
  have hescape : ∀ s', escaped s' = some (c, s) →
      basicRest (fuel + 1) ('\\' :: s') = some (c :: t, rest) := by
    intro s' hs'
    rw [basicRest, bind_of_eq_some (peek_cons _ _)]
    exact (bind_of_eq_some (advance_cons _ _)).trans
      ((bind_of_eq_some hs').trans (bind_of_eq_some h))
  cases hc with
  | plain hplain hquote hslash =>
    rw [List.singleton_append, basicRest, bind_of_eq_some (peek_cons _ _)]
    simp only [hplain, if_true]
    exact (bind_of_eq_some (advance_cons _ _)).trans (bind_of_eq_some h)
  | letter hletter => exact hescape _ (escaped_letter hletter s)
  | code hlength hdigits hvalue => exact hescape _ (escaped_code hlength hdigits hvalue s)

theorem basicRest_append {t s : Text} {fuel : Nat} (h : WrittenBasic t s) (hfuel : t.length < fuel)
    (rest : Text) : basicRest fuel (s ++ rest) = some (t, rest) := by
  induction h generalizing fuel with
  | close =>
    obtain ⟨fuel, rfl⟩ := Nat.exists_eq_add_one_of_ne_zero (Nat.ne_zero_of_lt hfuel)
    rfl
  | cons hc h ih =>
    obtain ⟨fuel, rfl⟩ := Nat.exists_eq_add_one_of_ne_zero (Nat.ne_zero_of_lt hfuel)
    rw [List.append_assoc]
    exact basicRest_cons hc (ih (Nat.lt_of_succ_lt_succ hfuel))

theorem exists_cons_of_writtenChar {c : Char} {p : Text} (h : WrittenChar c p) :
    ∃ d p', p = d :: p' ∧ d ≠ '"' := by
  cases h with
  | plain hplain hquote hslash => exact ⟨_, _, rfl, hquote⟩
  | letter hletter => exact ⟨_, _, rfl, by decide⟩
  | code hlength hdigits hvalue => exact ⟨_, _, rfl, by decide⟩

theorem length_lt_of_writtenBasic {t s : Text} (h : WrittenBasic t s) : t.length < s.length := by
  induction h with
  | close => simp
  | cons hc h ih =>
    obtain ⟨d, p', rfl, -⟩ := exists_cons_of_writtenChar hc
    simp only [List.length_cons, List.length_append]
    omega

/-- A quote opens no string between triple quotes, unless two more follow it. -/
theorem isPrefixOf_triple_eq_false {q : Char} {s : Text}
    (h : s.head? = some q → (s.drop 1).head? ≠ some q) : [q, q, q].isPrefixOf (q :: s) = false := by
  rw [← Bool.not_eq_true, List.isPrefixOf_iff_prefix]
  rintro ⟨tail, htail⟩
  obtain rfl : q :: q :: tail = s := List.cons_inj_right q |>.mp htail
  exact h rfl rfl

theorem string_basic {t s : Text} (h : WrittenBasic t s) (hrest : rest.head? ≠ some '"') :
    string ('"' :: (s ++ rest)) = some (t, rest) := by
  have htriple : ['"', '"', '"'].isPrefixOf ('"' :: (s ++ rest)) = false := by
    apply isPrefixOf_triple_eq_false
    cases h with
    | close => exact fun _ => hrest
    | cons hc h =>
      obtain ⟨d, p', rfl, hd⟩ := exists_cons_of_writtenChar hc
      intro hhead
      exact absurd (Option.some.inj hhead) hd
  have hread : basicString ('"' :: (s ++ rest)) = some (t, rest) := by
    have hfuel : t.length < (s ++ rest).length + 1 := by
      have hlt := length_lt_of_writtenBasic h
      rw [List.length_append]
      omega
    rw [basicString, bind_of_eq_some (word_cons '"' _), bind_of_eq_some (rounds_eq _),
      basicRest_append h hfuel]
  rw [string, bind_of_eq_some (a := false) (by rw [looksAt, htriple])]
  exact hread

theorem string_literal {t : Text} (h : t.all (fun c => isPlain c && c != '\'') = true)
    (hrest : rest.head? ≠ some '\'') :
    string ('\'' :: (t ++ '\'' :: rest)) = some (t, rest) := by
  have htriple : ['\'', '\'', '\''].isPrefixOf ('\'' :: (t ++ '\'' :: rest)) = false := by
    apply isPrefixOf_triple_eq_false
    cases t with
    | nil => exact fun _ => hrest
    | cons c t =>
      have hne : c ≠ '\'' := by
        simp only [List.all_cons, Bool.and_eq_true, bne_iff_ne] at h
        exact h.1.2
      intro hhead
      exact absurd (Option.some.inj hhead) hne
  have hread : literalString ('\'' :: (t ++ '\'' :: rest)) = some (t, rest) := by
    rw [literalString, bind_of_eq_some (word_cons '\'' _),
      bind_of_eq_some (takeRun_append h (leaves_cons (by decide) _)),
      bind_of_eq_some (word_cons '\'' _)]
    rfl
  rw [string, bind_of_eq_some (a := false) (by rw [looksAt]; rfl), if_neg Bool.false_ne_true,
    bind_of_eq_some (a := false) (by rw [looksAt, htriple])]
  exact hread

/-! ## Integers -/

/-- The characters that may stand behind a value. -/
def stopChars : List Char := [' ', '\t', '#', '\n', '\r', ',', ']', '}']

/-- The text does not go on with a value. -/
def Stops (rest : Text) : Prop := ∀ c ∈ rest.head?, c ∈ stopChars

theorem Stops.leaves {p : Char → Bool} (h : Stops rest) (hp : stopChars.all (!p ·) = true) :
    Leaves p rest := by
  intro c hc
  simpa using List.all_eq_true.mp hp c (h c hc)

theorem Stops.head?_ne {c : Char} (h : Stops rest) (hc : c ∉ stopChars) :
    rest.head? ≠ some c := by
  intro hhead
  exact hc (h c hhead)

variable {digits sign : Text} {negative : Bool}

/-- A text whose digits at the start are an integer does not start like a day. -/
theorem startsDate_eq_false {s : Text} (h : Stops (s.dropWhile Char.isDigit)) :
    startsDate s = false := by
  rw [← Bool.not_eq_true]
  intro hdate
  rw [startsDate, Bool.and_eq_true, beq_iff_eq] at hdate
  obtain ⟨later, hlater⟩ := List.head?_eq_some_iff.mp hdate.2
  have hdrop : s.dropWhile Char.isDigit = '-' :: later :=
    calc s.dropWhile Char.isDigit
        = (s.take 4 ++ s.drop 4).dropWhile Char.isDigit := by rw [List.take_append_drop]
      _ = (s.drop 4).dropWhile Char.isDigit :=
          List.dropWhile_append_of_pos (List.all_eq_true.mp hdate.1)
      _ = '-' :: later := by rw [hlater]; rfl
  rw [hdrop] at h
  exact h.head?_ne (c := '-') (by decide) rfl

/-- Nor like a time of day. -/
theorem startsTime_eq_false {s : Text} (h : Stops (s.dropWhile Char.isDigit)) :
    startsTime s = false := by
  unfold startsTime
  split
  · rename_i a b later
    cases ha : a.isDigit with
    | false => rfl
    | true =>
      cases hb : b.isDigit with
      | false => rfl
      | true =>
        rw [List.dropWhile_cons_of_pos ha, List.dropWhile_cons_of_pos hb] at h
        exact absurd rfl (h.head?_ne (c := ':') (by decide))
  · rfl

theorem startsTime_cons {c : Char} (h : c.isDigit = false) (s : Text) :
    startsTime (c :: s) = false := by
  unfold startsTime
  split
  · rename_i heq
    cases heq
    simp [h]
  · rfl

/-- Nor like a number in another base. -/
theorem looksAt_base {s : Text} {letter : Char} (h : Stops (s.dropWhile Char.isDigit))
    (hdigit : letter.isDigit = false) (hletter : letter ∉ stopChars) :
    looksAt ['0', letter] s = some (false, s) := by
  have hprefix : ['0', letter].isPrefixOf s = false := by
    rw [← Bool.not_eq_true, List.isPrefixOf_iff_prefix]
    rintro ⟨later, rfl⟩
    apply h.head?_ne hletter
    simp [hdigit]
  rw [looksAt, hprefix]

/-- Behind the digits of an integer stands what stops it. -/
theorem dropWhile_isDigit (hdigits : digits.all Char.isDigit = true) (hrest : Stops rest) :
    (digits ++ rest).dropWhile Char.isDigit = rest := by
  have hrun := takeRun_append hdigits (hrest.leaves (by decide))
  rw [takeRun, Option.some.injEq, Prod.mk.injEq] at hrun
  exact hrun.2

/-- The digits of an integer are read, and they are all. -/
theorem wholeDigits_append (hdigits : IsWhole digits) (hrest : Stops rest) :
    wholeDigits (digits ++ rest) = some (digits, rest) := by
  have hall := hdigits.all_digits
  obtain ⟨d, later, rfl⟩ := List.exists_cons_of_ne_nil hdigits.nonempty
  by_cases hzero : d = '0'
  · subst hzero
    have hlater : later = [] := by
      cases later with
      | nil => rfl
      | cons next later => exact absurd rfl (hdigits.leading next later)
    subst hlater
    rfl
  · have hd : d.isDigit = true := by
      rw [List.all_cons, Bool.and_eq_true] at hall
      exact hall.1
    have hmore : rest.head? ≠ some '_' := hrest.head?_ne (by decide)
    have hgroup : groupedRest Char.isDigit ((d :: later ++ rest).length + 1) (d :: later ++ rest) =
        some (d :: later, rest) := by
      rw [groupedRest, bind_of_eq_some (takeRun_append hall (hrest.leaves (by decide))),
        bind_of_eq_some (peek_eq _), if_neg hmore]
      rfl
    have hread : grouped Char.isDigit (d :: later ++ rest) = some (d :: later, rest) := by
      rw [List.cons_append] at hgroup ⊢
      rw [grouped, bind_of_eq_some (peek_cons _ _)]
      simp only [hd, if_true]
      rw [bind_of_eq_some (rounds_eq _), hgroup]
    rw [List.cons_append] at hread ⊢
    rw [wholeDigits, bind_of_eq_some (peek_cons _ _)]
    simp [hzero, hread]

theorem sign?_append (hsign : WrittenSign negative sign) {s : Text} (hplus : s.head? ≠ some '+')
    (hminus : s.head? ≠ some '-') :
    ∃ found, sign? (sign ++ s) = some (found, s) ∧ found.getD false = negative := by
  cases hsign with
  | absent =>
    refine ⟨none, ?_, rfl⟩
    rw [List.nil_append, sign?, bind_of_eq_some (peek_eq _)]
    cases s with
    | nil => rfl
    | cons c s =>
      have hne : c ≠ '+' ∧ c ≠ '-' :=
        ⟨fun heq => hplus (heq ▸ rfl), fun heq => hminus (heq ▸ rfl)⟩
      simp [hne, pure_eq]
  | plus => exact ⟨some false, rfl, rfl⟩
  | minus => exact ⟨some true, rfl, rfl⟩

theorem exponent?_of_stops (hrest : Stops rest) : exponent? rest = some (none, rest) := by
  have hletter : ¬(rest.head? = some 'e' ∨ rest.head? = some 'E') := by
    rintro (h | h)
    · exact hrest.head?_ne (by decide) h
    · exact hrest.head?_ne (by decide) h
  rw [exponent?, bind_of_eq_some (peek_eq _), if_neg hletter]
  rfl

/-- An integer is a decimal number without a fraction and an exponent. -/
theorem decimal_append (hsign : WrittenSign negative sign) (hdigits : IsWhole digits)
    (hleast : -9223372036854775808 ≤ signed negative digits)
    (hmost : signed negative digits ≤ 9223372036854775807) (hrest : Stops rest) :
    decimal (sign ++ (digits ++ rest)) = some (.int (signed negative digits), rest) := by
  obtain ⟨d, later, hcons⟩ := List.exists_cons_of_ne_nil hdigits.nonempty
  have hd : d.isDigit = true := by
    have hall := hdigits.all_digits
    rw [hcons, List.all_cons, Bool.and_eq_true] at hall
    exact hall.1
  have hhead : ∀ c : Char, c.isDigit = false → (digits ++ rest).head? ≠ some c := by
    rintro c hc hhead
    rw [hcons, List.cons_append, List.head?_cons, Option.some.injEq] at hhead
    rw [hhead, hc] at hd
    cases hd
  obtain ⟨found, hfound, hnegative⟩ :=
    sign?_append hsign (hhead '+' (by decide)) (hhead '-' (by decide))
  have hdot : rest.head? ≠ some '.' := hrest.head?_ne (by decide)
  have hrange : int64? (signed negative digits) = some (.int (signed negative digits)) := by
    rw [int64?, if_pos ⟨hleast, hmost⟩]
  rw [decimal, bind_of_eq_some hfound, hnegative]
  rw [bind_of_eq_some (looksAt_of_head?_ne (c := 'i') rfl (hhead 'i' (by decide))),
    if_neg Bool.false_ne_true,
    bind_of_eq_some (looksAt_of_head?_ne (c := 'n') rfl (hhead 'n' (by decide))),
    if_neg Bool.false_ne_true, bind_of_eq_some (wholeDigits_append hdigits hrest),
    bind_of_eq_some (peek_eq _), if_neg hdot, bind_of_eq_some (exponent?_of_stops hrest)]
  change (liftM (int64? (signed negative digits)) : Reader Settings.Tree) rest = _
  rw [hrange]
  rfl

/-- An integer starts neither like a date nor like a number in another base. -/
theorem startsDecimal (hsign : WrittenSign negative sign)
    (hdigits : digits.all Char.isDigit = true) (hrest : Stops rest) :
    date? (sign ++ (digits ++ rest)) = some (none, sign ++ (digits ++ rest)) ∧
    ∀ letter : Char, letter.isDigit = false → letter ∉ stopChars →
      looksAt ['0', letter] (sign ++ (digits ++ rest)) =
        some (false, sign ++ (digits ++ rest)) := by
  have hdate : ∀ s : Text, startsDate s = false → startsTime s = false →
      date? s = some (none, s) := by
    intro s hday htime
    rw [date?, bind_of_eq_some (show (get : Reader Text) s = some (s, s) from rfl), hday, htime]
    rfl
  cases hsign with
  | absent =>
    have hstops : Stops ((digits ++ rest).dropWhile Char.isDigit) :=
      (dropWhile_isDigit hdigits hrest).symm ▸ hrest
    exact ⟨hdate _ (startsDate_eq_false hstops) (startsTime_eq_false hstops),
      fun letter => looksAt_base hstops⟩
  | plus =>
    exact ⟨hdate _ (by simp [startsDate]) (startsTime_cons (by decide) _),
      fun letter _ _ => looksAt_of_head?_ne (c := '0') rfl (by simp)⟩
  | minus =>
    exact ⟨hdate _ (by simp [startsDate]) (startsTime_cons (by decide) _),
      fun letter _ _ => looksAt_of_head?_ne (c := '0') rfl (by simp)⟩

theorem number_append (hsign : WrittenSign negative sign) (hdigits : IsWhole digits)
    (hleast : -9223372036854775808 ≤ signed negative digits)
    (hmost : signed negative digits ≤ 9223372036854775807) (hrest : Stops rest) :
    number (sign ++ (digits ++ rest)) = some (.int (signed negative digits), rest) := by
  obtain ⟨-, hbase⟩ := startsDecimal hsign hdigits.all_digits hrest
  rw [number, bind_of_eq_some (hbase 'x' (by decide) (by decide)), if_neg Bool.false_ne_true,
    bind_of_eq_some (hbase 'o' (by decide) (by decide)), if_neg Bool.false_ne_true,
    bind_of_eq_some (hbase 'b' (by decide) (by decide)), if_neg Bool.false_ne_true,
    decimal_append hsign hdigits hleast hmost hrest]

/-! ## Keys -/

theorem exists_cons_of_isBare {key : Text} (h : IsBare key) :
    ∃ c later, key = c :: later ∧ isBareKey c = true := by
  obtain ⟨c, later, rfl⟩ := List.exists_cons_of_ne_nil h.nonempty
  have hall := h.bare
  rw [List.all_cons, Bool.and_eq_true] at hall
  exact ⟨c, later, rfl, hall.1⟩

theorem ne_quote_of_isBareKey {c : Char} (h : isBareKey c = true) : c ≠ '"' ∧ c ≠ '\'' := by
  constructor <;> rintro rfl <;> exact absurd h (by decide)

theorem keyPart_append {key : Text} (hkey : IsBare key) (hrest : Leaves isBareKey rest) :
    keyPart (key ++ rest) = some (key, rest) := by
  have hrun := takeRun_append hkey.bare hrest
  obtain ⟨c, later, rfl, hc⟩ := exists_cons_of_isBare hkey
  rw [List.cons_append] at hrun ⊢
  rw [keyPart, bind_of_eq_some (peek_cons _ _)]
  simp only [↓Char.isValue, Option.some.injEq, ne_quote_of_isBareKey hc, imp_self]
  rw [bind_of_eq_some hrun]
  rfl

theorem isBareKey_of_isBlank {c : Char} (h : isBlank c = true) : isBareKey c = false := by
  rw [isBlank, Bool.or_eq_true, beq_iff_eq, beq_iff_eq] at h
  rcases h with rfl | rfl <;> decide

theorem leaves_blanks_append {p : Char → Bool} (hb : IsBlanks b)
    (hp : ∀ c, isBlank c = true → p c = false) (hrest : Leaves p rest) : Leaves p (b ++ rest) := by
  cases b with
  | nil => exact hrest
  | cons c b =>
    rw [IsBlanks, List.all_cons, Bool.and_eq_true] at hb
    exact leaves_cons (hp c hb.1) _

theorem leaves_isBare_append {p : Char → Bool} {key : Text} (hkey : IsBare key)
    (hp : ∀ c, isBareKey c = true → p c = false) (rest : Text) : Leaves p (key ++ rest) := by
  obtain ⟨c, later, rfl, hc⟩ := exists_cons_of_isBare hkey
  exact leaves_cons (hp c hc) _

theorem isBlank_of_isBareKey {c : Char} (h : isBareKey c = true) : isBlank c = false := by
  rw [← Bool.not_eq_true]
  intro hblank
  rw [isBareKey_of_isBlank hblank] at h
  cases h

/-- A part of a key and the blanks around it are read, up to what stands behind. -/
theorem blanks_keyPart {key b' : Text} (hb : IsBlanks b) (hkey : IsBare key) (hb' : IsBlanks b')
    (hblank : Leaves isBlank rest) (hbare : Leaves isBareKey (b' ++ rest)) (f : Text → Reader α) :
    (do blanks; let part ← keyPart; blanks; f part) (b ++ (key ++ (b' ++ rest))) = f key rest := by
  have hstart : Leaves isBlank (key ++ (b' ++ rest)) :=
    leaves_isBare_append hkey (fun _ => isBlank_of_isBareKey) _
  rw [bind_of_eq_some (blanks_append hb hstart), bind_of_eq_some (keyPart_append hkey hbare),
    bind_of_eq_some (blanks_append hb' hblank)]

theorem keyParts_last {key b' : Text} {fuel : Nat} (hb : IsBlanks b) (hkey : IsBare key)
    (hb' : IsBlanks b') (hblank : Leaves isBlank rest) (hbare : Leaves isBareKey (b' ++ rest))
    (hdot : rest.head? ≠ some '.') :
    keyParts (fuel + 1) (b ++ (key ++ (b' ++ rest))) = some ([key], rest) := by
  rw [keyParts, blanks_keyPart hb hkey hb' hblank hbare, bind_of_eq_some (peek_eq _), if_neg hdot]
  rfl

/-- What may stand behind a key: nothing that goes on with it. -/
structure EndsKey (rest : Text) : Prop where
  blank : Leaves isBlank rest
  bare : Leaves isBareKey rest
  dot : rest.head? ≠ some '.'

theorem endsKey_cons {c : Char} (h : c = '=' ∨ c = ']') (s : Text) : EndsKey (c :: s) := by
  rcases h with rfl | rfl
  · exact ⟨leaves_cons rfl _, leaves_cons rfl _, by simp⟩
  · exact ⟨leaves_cons rfl _, leaves_cons rfl _, by simp⟩

theorem keyParts_append {keys : List Text} {s : Text} {fuel : Nat} (h : WrittenKey keys s)
    (hfuel : keys.length ≤ fuel) (hrest : EndsKey rest) :
    keyParts fuel (s ++ rest) = some (keys, rest) := by
  induction h generalizing fuel with
  | last hb hkey hb' =>
    obtain ⟨fuel, rfl⟩ := Nat.exists_eq_add_one_of_ne_zero (Nat.ne_zero_of_lt hfuel)
    rw [List.append_assoc, List.append_assoc]
    exact keyParts_last hb hkey hb' hrest.blank
      (leaves_blanks_append hb' (fun _ => isBareKey_of_isBlank) hrest.bare) hrest.dot
  | cons hb hkey hb' h ih =>
    obtain ⟨fuel, rfl⟩ := Nat.exists_eq_add_one_of_ne_zero (Nat.ne_zero_of_lt hfuel)
    rw [List.append_assoc, List.append_assoc, List.append_assoc, List.cons_append, keyParts,
      blanks_keyPart hb hkey hb' (leaves_cons rfl _)
        (leaves_blanks_append hb' (fun _ => isBareKey_of_isBlank) (leaves_cons rfl _)),
      bind_of_eq_some (peek_cons _ _), if_pos rfl, bind_of_eq_some (advance_cons _ _),
      bind_of_eq_some (ih (Nat.le_of_succ_le_succ hfuel))]
    rfl

/-- A dotted key is read as its last part and those before. -/
theorem key_append {parents : List Text} {last s : Text} (h : WrittenKey (parents ++ [last]) s)
    (hlength : parents.length < nestingLimit) (hrest : EndsKey rest) :
    key (s ++ rest) = some ((parents, last), rest) := by
  have hfuel : (parents ++ [last]).length ≤ nestingLimit := by
    rw [List.length_append]
    exact hlength
  rw [key, bind_of_eq_some (keyParts_append h hfuel hrest), List.getLast?_concat,
    List.dropLast_concat]
  rfl

end Reader

end NotebookExtract.Toml
