import NotebookExtract.Proofs.Json.Tokens

/-!
# Strings and the pieces they are written with

A string of the grammar is read as the text that its pieces stand for, and not at
all if a half of a character stands alone. Skipping asks less: it passes over
every string. In the other direction, whatever is read or skipped as a string is
one.
-/

namespace NotebookExtract.Json

namespace Reader

variable {s rest : Text} {c : Char}

/-! ## Escapes by number -/

/-- A character takes at least one byte. -/
theorem length_le_utf8Length (t : Text) : t.length ≤ Text.utf8Length t := by
  have hgen : ∀ n, n + t.length ≤ t.foldl (fun n c => n + c.utf8Size) n := by
    induction t with
    | nil => simp
    | cons c t ih =>
      intro n
      have hsize := Char.utf8Size_pos c
      have hrest := ih (n + c.utf8Size)
      simp only [List.length_cons, List.foldl_cons]
      omega
  simpa [Text.utf8Length] using hgen 0

/-- Four hexadecimal digits are read exactly where they stand. -/
theorem run?_hexFour_eq_some_iff {n : Nat} :
    hexFour.run? s = some (n, rest) ↔ ∃ digits, HexFour digits n ∧ s = digits ++ rest := by
  have hrun : hexFour.run? s =
      if (s.take 4).length = 4 ∧ (s.take 4).all Text.isHexDigit = true then
        some (Text.ofDigits 16 (s.take 4), s.drop 4) else none := by
    have hbytes := length_le_utf8Length (s.take 4)
    unfold run? hexFour
    by_cases hshort : Text.utf8Length (s.take 4) < 4
    · have hne : ¬ ((s.take 4).length = 4 ∧ (s.take 4).all Text.isHexDigit = true) := by
        rintro ⟨hlength, -⟩
        omega
      rw [if_neg hne]
      simp only [if_pos hshort]
      rfl
    · simp only [if_neg hshort]
      split <;> rfl
  rw [hrun]
  constructor
  · intro h
    split at h
    · rename_i hdigits
      cases h
      exact ⟨s.take 4, ⟨hdigits.1, hdigits.2, rfl⟩, (List.take_append_drop 4 s).symm⟩
    · cases h
  · rintro ⟨digits, hdigits, rfl⟩
    have htake : (digits ++ rest).take 4 = digits := List.take_left' hdigits.length_eq
    have hdrop : (digits ++ rest).drop 4 = rest := List.drop_left' hdigits.length_eq
    rw [htake, hdrop, if_pos ⟨hdigits.length_eq, hdigits.all_hex⟩, hdigits.value_eq]

theorem run?_hexFour {digits : Text} {n : Nat} (h : HexFour digits n) (s : Text) :
    hexFour.run? (digits ++ s) = some (n, s) :=
  run?_hexFour_eq_some_iff.mpr ⟨digits, h, rfl⟩

/-- A character is never half a character. -/
theorem not_isHalf_toNat (c : Char) : ¬ IsHalf c.toNat := by
  have hvalid := c.valid
  simp only [UInt32.isValidChar, Nat.isValidChar] at hvalid
  have hval : c.toNat = c.val.toNat := rfl
  simp only [IsHalf, isLeading, isTrailing, Bool.and_eq_true, decide_eq_true_eq]
  omega

/-- A leading half is no trailing one. -/
theorem isTrailing_of_isLeading {n : Nat} (h : isLeading n = true) : isTrailing n = false := by
  simp only [isLeading, Bool.and_eq_true, decide_eq_true_eq] at h
  simp only [isTrailing, Bool.and_eq_false_iff, decide_eq_false_iff_not]
  omega

/-- An escape by number that names a character. -/
theorem run?_unicodeEscape_scalar {digits : Text} (h : HexFour digits c.toNat) (s : Text) :
    unicodeEscape.run? (digits ++ s) = some (c, s) := by
  have hhalf := not_isHalf_toNat c
  simp only [IsHalf, not_or, Bool.not_eq_true] at hhalf
  unfold unicodeEscape
  simp [run?_hexFour h, hhalf.1, hhalf.2]

/-- The escape that has to follow a leading half. -/
def secondHalf (n : Nat) : Reader Char := do
  word ['\\', 'u']
  let m ← hexFour
  if isTrailing m then return surrogatePair n m else malformed

/-- An escape by number that names half a character. -/
theorem run?_unicodeEscape_half {digits : Text} {n : Nat} (h : HexFour digits n)
    (hn : IsHalf n) (s : Text) :
    unicodeEscape.run? (digits ++ s) = if isLeading n then (secondHalf n).run? s else none := by
  unfold unicodeEscape
  rw [run?_bind, run?_hexFour h, Option.bind_some]
  rcases hn with hleading | htrailing
  · simp only [isTrailing_of_isLeading hleading, hleading, Bool.false_eq_true, ↓reduceIte]
    rfl
  · have hleading : isLeading n = false := by
      cases hl : isLeading n with
      | false => rfl
      | true =>
        rw [isTrailing_of_isLeading hl] at htrailing
        cases htrailing
    simp [htrailing, hleading]

theorem simpleEscape?_u : simpleEscape? 'u' = none := rfl

/-- The letter of an escape is not the one that announces a number. -/
theorem ne_u_of_simpleEscape? {e : Char} (h : simpleEscape? e = some c) : e ≠ 'u' := by
  rintro rfl
  rw [simpleEscape?_u] at h
  cases h

/-- A character of a string is read in one round. -/
theorem run?_stringRest_scalar {t : Text} (h : (Piece.scalar c).Written t) (fuel : Nat) (s : Text) :
    (stringRest (fuel + 1)).run? (t ++ s) =
      ((stringRest fuel).run? s).map fun out => (c :: out.1, out.2) := by
  rw [stringRest]
  cases h with
  | plain hcontrol hquote hslash =>
    have hnot : ¬ c.toNat < 0x20 := by omega
    simp only [run?_bind, run?_peek, Option.bind_some, List.cons_append, List.nil_append,
      List.head?_cons, if_neg hnot]
    rw [run?_advance, Option.bind_some, Option.map_eq_bind]
    rfl
  | @letter e _ hletter =>
    have hu : e ≠ 'u' := ne_u_of_simpleEscape? hletter
    have hescaped : escaped.run? (e :: s) = some (c, s) := by
      unfold escaped
      rw [run?_bind, run?_peek, Option.bind_some]
      split
      · simp_all
      · simp_all
      · rename_i d _ heq
        cases heq
        simp [hletter]
    simp [hescaped, Option.map_eq_bind]
  | @number _ digits hdigits =>
    have hescaped : escaped.run? ('u' :: (digits ++ s)) = some (c, s) := by
      unfold escaped
      simp [run?_unicodeEscape_scalar hdigits]
    simp [hescaped, Option.map_eq_bind]

/-- A half of a character is read together with what follows. -/
theorem run?_stringRest_half {n : Nat} {t : Text} (h : (Piece.half n).Written t) (fuel : Nat)
    (s : Text) :
    (stringRest (fuel + 1)).run? (t ++ s) =
      (if isLeading n then (secondHalf n).run? s else none).bind fun out =>
        ((stringRest fuel).run? out.2).map fun out' => (out.1 :: out'.1, out'.2) := by
  cases h with
  | @half _ digits hdigits hn =>
    have hescaped : escaped.run? ('u' :: (digits ++ s)) =
        if isLeading n then (secondHalf n).run? s else none := by
      unfold escaped
      simp [run?_unicodeEscape_half hdigits hn]
    rw [stringRest]
    simp [hescaped, Option.map_eq_bind]

/-- Only another half is a second half. -/
theorem run?_secondHalf_half {n m : Nat} {t : Text} (h : (Piece.half m).Written t) (s : Text) :
    (secondHalf n).run? (t ++ s) =
      if isTrailing m then some (surrogatePair n m, s) else none := by
  cases h with
  | @half _ digits hdigits hm =>
    have hword : (word ['\\', 'u']).run? ('\\' :: 'u' :: (digits ++ s)) = some ((), digits ++ s) :=
      run?_word ['\\', 'u'] (digits ++ s)
    unfold secondHalf
    simp only [List.cons_append, run?_bind, hword, Option.bind_some, run?_hexFour hdigits]
    split <;> rfl

theorem run?_secondHalf_scalar {n : Nat} {t : Text} (h : (Piece.scalar c).Written t) (s : Text) :
    (secondHalf n).run? (t ++ s) = none := by
  unfold secondHalf
  cases h with
  | plain hcontrol hquote hslash =>
    have hword : (word ['\\', 'u']).run? (c :: s) = none :=
      run?_word_eq_none fun rest hs => hslash (List.cons.inj hs).1
    simp [hword]
  | @letter e _ hletter =>
    have hword : (word ['\\', 'u']).run? ('\\' :: e :: s) = none := by
      refine run?_word_eq_none fun rest hs => ?_
      simp only [List.cons_append, List.cons.injEq, true_and] at hs
      exact ne_u_of_simpleEscape? hletter hs.1
    simp [hword]
  | @number _ digits hdigits =>
    have hword : (word ['\\', 'u']).run? ('\\' :: 'u' :: (digits ++ s)) = some ((), digits ++ s) :=
      run?_word ['\\', 'u'] (digits ++ s)
    have htrailing : isTrailing c.toNat = false := by
      have hhalf := not_isHalf_toNat c
      simp only [IsHalf, not_or, Bool.not_eq_true] at hhalf
      exact hhalf.2
    simp [hword, run?_hexFour hdigits, htrailing]

theorem run?_secondHalf_close (n : Nat) (s : Text) : (secondHalf n).run? ('"' :: s) = none := by
  have hword : (word ['\\', 'u']).run? ('"' :: s) = none :=
    run?_word_eq_none fun rest hs => absurd (List.cons.inj hs).1 (by decide)
  unfold secondHalf
  simp [hword]

/-- The rest of a string is read as the text that it stands for. -/
theorem run?_stringRest {l : Literal} (h : l.Written s) {fuel : Nat} (hfuel : l.length < fuel)
    (rest : Text) : (stringRest fuel).run? (s ++ rest) = l.text?.map (·, rest) := by
  obtain ⟨fuel, rfl⟩ : ∃ k, fuel = k + 1 := ⟨fuel - 1, by omega⟩
  -- one round for each piece, or one for two halves: the cases of what a string stands for
  fun_induction Literal.text? l generalizing s fuel with
  | case1 =>
    -- only the closing quote is left
    cases h
    rw [stringRest]
    rfl
  | case2 c l ih =>
    cases h with
    | cons hp hl =>
      obtain ⟨fuel, rfl⟩ : ∃ k, fuel = k + 1 := ⟨fuel - 1, by simp at hfuel; omega⟩
      rw [List.append_assoc, run?_stringRest_scalar hp, ih hl _ (by simpa using hfuel),
        Option.map_map, Option.map_map]
      rfl
  | case3 n m l hpair ih =>
    -- two halves that are a pair
    cases h with
    | cons hp hl =>
      cases hl with
      | cons hq hl =>
        rw [Bool.and_eq_true] at hpair
        obtain ⟨fuel, rfl⟩ : ∃ k, fuel = k + 1 := ⟨fuel - 1, by simp at hfuel; omega⟩
        rw [List.append_assoc, run?_stringRest_half hp, if_pos hpair.1, List.append_assoc,
          run?_secondHalf_half hq, if_pos hpair.2, Option.bind_some,
          ih hl _ (by simp at hfuel; omega), Option.map_map, Option.map_map]
        simp only [Function.comp_def]
  | case4 n m l hpair =>
    -- two halves that are none
    cases h with
    | cons hp hl =>
      cases hl with
      | cons hq hl =>
        rw [List.append_assoc, run?_stringRest_half hp, List.append_assoc,
          run?_secondHalf_half hq]
        cases hn : isLeading n <;> cases hm : isTrailing m <;> simp_all
  | case5 n =>
    -- a half with nothing after it, or with a whole character
    cases h with
    | cons hp hl =>
      cases hl
      rw [List.append_assoc, run?_stringRest_half hp]
      simp [run?_secondHalf_close]
  | case6 n c l =>
    cases h with
    | cons hp hl =>
      cases hl with
      | cons hq hl =>
        rw [List.append_assoc, run?_stringRest_half hp, List.append_assoc,
          run?_secondHalf_scalar hq]
        simp

theorem length_pos_of_written {p : Piece} (h : p.Written s) : 0 < s.length := by
  cases h <;> simp

/-- A string has at least as many characters as pieces, and a closing quote. -/
theorem length_lt_of_written {l : Literal} (h : l.Written s) : l.length < s.length := by
  induction h with
  | close => simp
  | cons hp hl ih =>
    have hpos := length_pos_of_written hp
    simp only [List.length_cons, List.length_append]
    omega

/-- A string is read as the text that it stands for. -/
theorem run?_string {l : Literal} (h : l.Written s) (rest : Text) :
    string.run? ('"' :: (s ++ rest)) = l.text?.map (·, rest) := by
  have hlength := length_lt_of_written h
  have hword : (word ['"']).run? ('"' :: (s ++ rest)) = some ((), s ++ rest) :=
    run?_word ['"'] (s ++ rest)
  unfold string
  rw [run?_bind, hword, Option.bind_some, run?_bind, run?_rounds, Option.bind_some,
    run?_stringRest h (by simp; omega)]

theorem digitValue_lt (h : Text.isHexDigit c = true) : Text.digitValue c < 16 := by
  simp only [Text.isHexDigit, Char.isDigit, Bool.or_eq_true, Bool.and_eq_true, decide_eq_true_eq,
    Char.le_def, UInt32.le_iff_toNat_le] at h
  simp only [Text.digitValue, Char.isDigit, Bool.and_eq_true, decide_eq_true_eq, Char.le_def,
    UInt32.le_iff_toNat_le]
  have hval : c.toNat = c.val.toNat := rfl
  have hchars : 'a'.val.toNat = 97 ∧ 'f'.val.toNat = 102 ∧ 'A'.val.toNat = 65 ∧
    'F'.val.toNat = 70 ∧ '0'.val.toNat = 48 ∧ '9'.val.toNat = 57 := by decide
  split
  · omega
  · split <;> omega

theorem lt_of_hexFour {digits : Text} {n : Nat} (h : HexFour digits n) : n < 0x10000 := by
  obtain ⟨hlength, hall, rfl⟩ := h
  obtain ⟨d₀, d₁, d₂, d₃, rfl⟩ : ∃ d₀ d₁ d₂ d₃, digits = [d₀, d₁, d₂, d₃] := by
    match digits, hlength with
    | [d₀, d₁, d₂, d₃], _ => exact ⟨d₀, d₁, d₂, d₃, rfl⟩
  simp only [List.all_cons, List.all_nil, Bool.and_true, Bool.and_eq_true] at hall
  have h₀ := digitValue_lt hall.1
  have h₁ := digitValue_lt hall.2.1
  have h₂ := digitValue_lt hall.2.2.1
  have h₃ := digitValue_lt hall.2.2.2
  simp only [Text.ofDigits, List.foldl_cons, List.foldl_nil]
  omega

theorem toNat_ofNat_of_not_isHalf {n : Nat} (hlt : n < 0x10000) (hn : ¬ IsHalf n) :
    (Char.ofNat n).toNat = n := by
  have hvalid : n.isValidChar := by
    simp only [IsHalf, isLeading, isTrailing, Bool.and_eq_true, decide_eq_true_eq] at hn
    simp only [Nat.isValidChar]
    omega
  rw [Char.ofNat, dif_pos hvalid]
  rfl

/-- A number that is no half of a character is the number of one. -/
theorem hexFour_toNat_ofNat {digits : Text} {n : Nat} (h : HexFour digits n) (hn : ¬ IsHalf n) :
    HexFour digits (Char.ofNat n).toNat := by
  rw [toNat_ofNat_of_not_isHalf (lt_of_hexFour h) hn]
  exact h

/-- What an escape by number takes can be written as pieces of a string. -/
theorem of_run?_unicodeEscape (h : unicodeEscape.run? s = some (c, rest)) :
    ∃ (l : Literal) (t : Text), s = t ++ rest ∧
      ∀ l' s', Literal.Written l' s' → Literal.Written (l ++ l') ('\\' :: 'u' :: (t ++ s')) := by
  -- how many pieces there are depends on the number, so what follows them is left open
  unfold unicodeEscape at h
  rw [run?_bind, Option.bind_eq_some_iff] at h
  obtain ⟨⟨n, r⟩, hhex, h⟩ := h
  obtain ⟨digits, hdigits, rfl⟩ := run?_hexFour_eq_some_iff.mp hhex
  split at h
  · cases h
  · rename_i htrailing
    split at h
    · -- a pair of halves
      rename_i hleading
      rw [run?_bind, Option.bind_eq_some_iff] at h
      obtain ⟨⟨⟨⟩, r'⟩, hword, h⟩ := h
      obtain rfl := run?_word_eq_some_iff.mp hword
      rw [run?_bind, Option.bind_eq_some_iff] at h
      obtain ⟨⟨m, r''⟩, hhex', h⟩ := h
      obtain ⟨digits', hdigits', rfl⟩ := run?_hexFour_eq_some_iff.mp hhex'
      split at h
      · rename_i htrailing'
        rw [run?_pure, Option.some.injEq, Prod.mk.injEq] at h
        obtain ⟨-, rfl⟩ := h
        refine ⟨[.half n, .half m], digits ++ '\\' :: 'u' :: digits', by simp, ?_⟩
        intro l' s' hl
        have hwritten := Literal.Written.cons (.half hdigits (.inl hleading))
          (Literal.Written.cons (.half hdigits' (.inr htrailing')) hl)
        simpa using hwritten
      · cases h
    · -- a character of the basic plane
      rename_i hleading
      cases h
      have hhalf : ¬ IsHalf n := not_or.mpr ⟨hleading, htrailing⟩
      refine ⟨[.scalar (Char.ofNat n)], digits, rfl, ?_⟩
      intro l' s' hl
      simpa using Literal.Written.cons (.number (hexFour_toNat_ofNat hdigits hhalf)) hl

/-- What an escape takes can be written as pieces of a string. -/
theorem of_run?_escaped (h : escaped.run? s = some (c, rest)) :
    ∃ (l : Literal) (t : Text), s = t ++ rest ∧
      ∀ l' s', Literal.Written l' s' → Literal.Written (l ++ l') ('\\' :: (t ++ s')) := by
  cases s with
  | nil => cases h
  | cons e s =>
    unfold escaped at h
    rw [run?_bind, run?_peek, Option.bind_some, List.head?_cons] at h
    split at h
    · cases h
    · rename_i heq
      cases heq
      obtain ⟨l, t, rfl, hwritten⟩ := of_run?_unicodeEscape h
      exact ⟨l, 'u' :: t, rfl, hwritten⟩
    · rename_i e' _ heq
      cases heq
      split at h
      · rename_i d hd
        cases h
        refine ⟨[.scalar c], [e], rfl, ?_⟩
        intro l' s' hl
        simpa using Literal.Written.cons (.letter hd) hl
      · cases h

/-- What is read as the rest of a string is one. -/
theorem of_run?_stringRest {fuel : Nat} {t : Text}
    (h : (stringRest fuel).run? s = some (t, rest)) :
    ∃ (l : Literal) (p : Text), l.Written p ∧ s = p ++ rest := by
  induction fuel generalizing s t with
  | zero => cases h
  | succ fuel ih =>
    rw [stringRest] at h
    cases s with
    | nil => cases h
    | cons c s =>
      rw [run?_bind, run?_peek, Option.bind_some, List.head?_cons] at h
      split at h
      · cases h
      · -- the closing quote
        rename_i heq
        cases heq
        cases h
        exact ⟨[], ['"'], .close, rfl⟩
      · -- an escape
        rename_i heq
        cases heq
        simp only [run?_bind, run?_advance, Option.bind_some, List.drop_one, List.tail_cons,
          Option.bind_eq_some_iff] at h
        obtain ⟨⟨d, r⟩, hescaped, ⟨t', r'⟩, hrest, hout⟩ := h
        cases hout
        obtain ⟨l, p, rfl, hwritten⟩ := of_run?_escaped hescaped
        obtain ⟨l', p', hl', rfl⟩ := ih hrest
        exact ⟨l ++ l', _, hwritten l' p' hl', by simp⟩
      · -- a character that stands for itself, unless it is a control character
        rename_i d hquote hslash heq
        cases heq
        split at h
        · cases h
        · rename_i hcontrol
          simp only [run?_bind, run?_advance, Option.bind_some, List.drop_one, List.tail_cons,
            Option.bind_eq_some_iff] at h
          obtain ⟨⟨t', r'⟩, hrest, hout⟩ := h
          cases hout
          obtain ⟨l', p', hl', rfl⟩ := ih hrest
          have hc : (Piece.scalar c).Written [c] :=
            .plain (by omega) (fun h => hquote (by rw [h])) (fun h => hslash (by rw [h]))
          exact ⟨.scalar c :: l', [c] ++ p', .cons hc hl', rfl⟩

/-- What is read as a string is one. -/
theorem of_run?_string {t : Text} (h : string.run? s = some (t, rest)) :
    ∃ (l : Literal) (p : Text), l.Written p ∧ s = '"' :: (p ++ rest) := by
  unfold string at h
  rw [run?_bind, Option.bind_eq_some_iff] at h
  obtain ⟨⟨⟨⟩, r⟩, hword, h⟩ := h
  obtain rfl := run?_word_eq_some_iff.mp hword
  rw [run?_bind, run?_rounds, Option.bind_some] at h
  obtain ⟨l, p, hl, rfl⟩ := of_run?_stringRest h
  exact ⟨l, p, hl, rfl⟩

/-! ## Skipped strings -/

/-- A piece of a string is skipped in one round. -/
theorem run?_skipStringRest_cons {p : Piece} {t : Text} (h : p.Written t) (fuel : Nat) (s : Text) :
    (skipStringRest (fuel + 1)).run? (t ++ s) = (skipStringRest fuel).run? s := by
  have hnumber : ∀ {digits : Text} {n : Nat}, HexFour digits n →
      skipEscaped.run? ('u' :: (digits ++ s)) = some ((), s) := by
    intro digits n hdigits
    unfold skipEscaped
    simp [run?_hexFour hdigits]
  rw [skipStringRest]
  cases h with
  | @plain c hcontrol hquote hslash =>
    have hnot : ¬ c.toNat < 0x20 := by omega
    simp only [run?_bind, run?_peek, Option.bind_some, List.cons_append, List.nil_append,
      List.head?_cons, if_neg hnot]
    simp
  | @letter e c hletter =>
    have hu : e ≠ 'u' := ne_u_of_simpleEscape? hletter
    have hescaped : skipEscaped.run? (e :: s) = some ((), s) := by
      unfold skipEscaped
      rw [run?_bind, run?_peek, Option.bind_some]
      split
      · simp_all
      · simp_all
      · rename_i d _ heq
        cases heq
        simp [hletter]
    simp [hescaped]
  | number hdigits => simp [hnumber hdigits]
  | half hdigits hn => simp [hnumber hdigits]

/-- A string is skipped whatever its pieces. -/
theorem run?_skipStringRest {l : Literal} (h : l.Written s) {fuel : Nat} (hfuel : l.length < fuel)
    (rest : Text) : (skipStringRest fuel).run? (s ++ rest) = some ((), rest) := by
  induction h generalizing fuel with
  | close =>
    obtain ⟨fuel, rfl⟩ : ∃ k, fuel = k + 1 := ⟨fuel - 1, by omega⟩
    rfl
  | cons hp hl ih =>
    rw [List.length_cons] at hfuel
    obtain ⟨fuel, rfl⟩ : ∃ k, fuel = k + 1 := ⟨fuel - 1, by omega⟩
    rw [List.append_assoc, run?_skipStringRest_cons hp, ih (by omega)]

theorem run?_skipString {l : Literal} (h : l.Written s) (rest : Text) :
    skipString.run? ('"' :: (s ++ rest)) = some ((), rest) := by
  have hlength := length_lt_of_written h
  have hword : (word ['"']).run? ('"' :: (s ++ rest)) = some ((), s ++ rest) :=
    run?_word ['"'] (s ++ rest)
  unfold skipString
  rw [run?_bind, hword, Option.bind_some, run?_bind, run?_rounds, Option.bind_some,
    run?_skipStringRest h (by simp; omega)]

/-- What is skipped as an escape is a piece of a string. -/
theorem of_run?_skipEscaped (h : skipEscaped.run? s = some ((), rest)) :
    ∃ (p : Piece) (t : Text), p.Written ('\\' :: t) ∧ s = t ++ rest := by
  cases s with
  | nil => cases h
  | cons e s =>
    unfold skipEscaped at h
    rw [run?_bind, run?_peek, Option.bind_some, List.head?_cons] at h
    split at h
    · cases h
    · rename_i heq
      cases heq
      simp only [run?_bind, run?_advance, Option.bind_some, List.drop_one, List.tail_cons,
        Option.bind_eq_some_iff] at h
      obtain ⟨⟨n, r⟩, hhex, hout⟩ := h
      cases hout
      obtain ⟨digits, hdigits, rfl⟩ := run?_hexFour_eq_some_iff.mp hhex
      by_cases hn : IsHalf n
      · exact ⟨.half n, 'u' :: digits, .half hdigits hn, rfl⟩
      · exact ⟨.scalar (Char.ofNat n), 'u' :: digits, .number (hexFour_toNat_ofNat hdigits hn), rfl⟩
    · rename_i e' _ heq
      cases heq
      split at h
      · rename_i hsome
        obtain ⟨c, hc⟩ := Option.isSome_iff_exists.mp hsome
        cases h
        exact ⟨.scalar c, [e], .letter hc, rfl⟩
      · cases h

/-- What is skipped as the rest of a string is one. -/
theorem of_run?_skipStringRest {fuel : Nat}
    (h : (skipStringRest fuel).run? s = some ((), rest)) :
    ∃ (l : Literal) (p : Text), l.Written p ∧ s = p ++ rest := by
  induction fuel generalizing s with
  | zero => cases h
  | succ fuel ih =>
    rw [skipStringRest] at h
    cases s with
    | nil => cases h
    | cons c s =>
      rw [run?_bind, run?_peek, Option.bind_some, List.head?_cons] at h
      split at h
      · cases h
      · -- the closing quote
        rename_i heq
        cases heq
        cases h
        exact ⟨[], ['"'], .close, rfl⟩
      · -- an escape
        rename_i heq
        cases heq
        simp only [run?_bind, run?_advance, Option.bind_some, List.drop_one, List.tail_cons,
          Option.bind_eq_some_iff] at h
        obtain ⟨⟨⟨⟩, r⟩, hescaped, hrest⟩ := h
        obtain ⟨p, t, hp, rfl⟩ := of_run?_skipEscaped hescaped
        obtain ⟨l', p', hl', rfl⟩ := ih hrest
        exact ⟨p :: l', _, .cons hp hl', by simp⟩
      · -- a character that stands for itself, unless it is a control character
        rename_i d hquote hslash heq
        cases heq
        split at h
        · cases h
        · rename_i hcontrol
          simp only [run?_bind, run?_advance, Option.bind_some, List.drop_one,
            List.tail_cons] at h
          obtain ⟨l', p', hl', rfl⟩ := ih h
          have hc : (Piece.scalar c).Written [c] :=
            .plain (by omega) (fun h => hquote (by rw [h])) (fun h => hslash (by rw [h]))
          exact ⟨.scalar c :: l', [c] ++ p', .cons hc hl', rfl⟩

theorem of_run?_skipString (h : skipString.run? s = some ((), rest)) :
    ∃ (l : Literal) (p : Text), l.Written p ∧ s = '"' :: (p ++ rest) := by
  unfold skipString at h
  rw [run?_bind, Option.bind_eq_some_iff] at h
  obtain ⟨⟨⟨⟩, r⟩, hword, h⟩ := h
  obtain rfl := run?_word_eq_some_iff.mp hword
  rw [run?_bind, run?_rounds, Option.bind_some] at h
  obtain ⟨l, p, hl, rfl⟩ := of_run?_skipStringRest h
  exact ⟨l, p, hl, rfl⟩

end Reader

end NotebookExtract.Json
