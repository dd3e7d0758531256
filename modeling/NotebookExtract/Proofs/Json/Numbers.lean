import NotebookExtract.Proofs.Json.Tokens

/-!
# Numbers and the way they are written

A number of the grammar is read digit by digit as it is written, if nothing
follows that could belong to it, and whatever is read as a number is one.
-/

namespace NotebookExtract.Json

namespace Reader

variable {s rest : Text}

/-- The text does not go on with a digit. -/
def NoDigit (s : Text) : Prop := ∀ c, s.head? = some c → c.isDigit = false

/-- The text does not go on with anything that could belong to a number. -/
def Stops (s : Text) : Prop :=
  ∀ c, s.head? = some c → c.isDigit = false ∧ c ≠ '.' ∧ c ≠ 'e' ∧ c ≠ 'E'

/-- All digits are taken that stand in a row. -/
theorem run?_someDigits_eq_some_iff {atEnd : Fault} {digits : Text} :
    (someDigits atEnd).run? s = some (digits, rest) ↔
      IsDigits digits ∧ NoDigit rest ∧ s = digits ++ rest := by
  have hrun : (someDigits atEnd).run? s = if s.takeWhile Char.isDigit = [] then none
      else some (s.takeWhile Char.isDigit, s.dropWhile Char.isDigit) := by
    unfold someDigits
    rw [run?_bind, run?_takeRun, Option.bind_some]
    split
    · rename_i hnil
      have hnil' : s.takeWhile Char.isDigit = [] := hnil
      rw [if_pos hnil', run?_bind, run?_peek, Option.bind_some]
      split <;> rfl
    · rename_i hne
      have hne' : s.takeWhile Char.isDigit ≠ [] := hne
      rw [if_neg hne']
      rfl
  rw [hrun]
  constructor
  · intro h
    split at h
    · cases h
    · rename_i hne
      cases h
      refine ⟨⟨hne, List.all_takeWhile⟩, ?_, List.takeWhile_append_dropWhile.symm⟩
      intro c hc
      have hfirst := List.head?_dropWhile_not Char.isDigit s
      rw [hc] at hfirst
      simpa using hfirst
  · rintro ⟨⟨hne, hall⟩, hstop, rfl⟩
    have hpos : ∀ c ∈ digits, c.isDigit = true := by simpa using hall
    have htake : rest.takeWhile Char.isDigit = [] ∧ rest.dropWhile Char.isDigit = rest := by
      cases rest with
      | nil => exact ⟨rfl, rfl⟩
      | cons c rest => simp [hstop c rfl]
    rw [List.takeWhile_append_of_pos hpos, List.dropWhile_append_of_pos hpos, htake.1, htake.2,
      List.append_nil, if_neg hne]

theorem run?_wholePart_eq_some_iff {atEnd : Fault} {digits : Text} :
    (wholePart atEnd).run? s = some (digits, rest) ↔
      IsDigits digits ∧ (∀ d tail, digits ≠ '0' :: d :: tail) ∧ NoDigit rest ∧
        s = digits ++ rest := by
  unfold wholePart
  rw [run?_bind, Option.bind_eq_some_iff]
  constructor
  · rintro ⟨⟨taken, r⟩, hrun, h⟩
    obtain ⟨hdigits, hstop, rfl⟩ := run?_someDigits_eq_some_iff.mp hrun
    split at h
    · cases h
    · rename_i hzero
      cases h
      exact ⟨hdigits, fun d tail heq => hzero d tail heq, hstop, rfl⟩
  · rintro ⟨hdigits, hzero, hstop, rfl⟩
    refine ⟨(digits, rest), run?_someDigits_eq_some_iff.mpr ⟨hdigits, hstop, rfl⟩, ?_⟩
    split
    · rename_i d tail heq
      exact absurd heq (hzero d tail)
    · rfl

theorem run?_fractionPart_eq_some_iff {atEnd : Fault} {fraction : Option Text} :
    (fractionPart atEnd).run? s = some (fraction, rest) ↔
      ∃ f, WrittenFraction fraction f ∧ s = f ++ rest ∧
        (fraction = none → rest.head? ≠ some '.') ∧ (fraction ≠ none → NoDigit rest) := by
  unfold fractionPart
  rw [run?_bind, run?_peek, Option.bind_some]
  constructor
  · intro h
    split at h
    · rename_i hhead
      obtain ⟨tail, rfl⟩ := List.head?_eq_some_iff.mp hhead
      simp only [run?_bind, run?_advance, Option.bind_some, List.drop_one, List.tail_cons,
        Option.bind_eq_some_iff] at h
      obtain ⟨⟨digits, r⟩, hrun, hout⟩ := h
      cases hout
      obtain ⟨hdigits, hstop, rfl⟩ := run?_someDigits_eq_some_iff.mp hrun
      exact ⟨'.' :: digits, .present hdigits, rfl, by simp, fun _ => hstop⟩
    · rename_i hhead
      cases h
      exact ⟨[], .absent, rfl, fun _ => hhead, by simp⟩
  · rintro ⟨f, hf, rfl, hdot, hstop⟩
    cases hf with
    | absent =>
      rw [List.nil_append]
      split
      · rename_i hhead
        exact absurd hhead (hdot rfl)
      · rfl
    | present hdigits =>
      have hrun : (someDigits atEnd).run? (_ ++ rest) = some (_, rest) :=
        run?_someDigits_eq_some_iff.mpr ⟨hdigits, hstop (by simp), rfl⟩
      simp [hrun]

theorem exists_cons_of_isDigits {digits : Text} (h : IsDigits digits) :
    ∃ c tail, digits = c :: tail ∧ c.isDigit = true := by
  obtain ⟨c, tail, rfl⟩ := List.exists_cons_of_ne_nil h.1
  have hall := h.2
  rw [List.all_cons, Bool.and_eq_true] at hall
  exact ⟨c, tail, rfl, hall.1⟩

theorem run?_exponentPart_eq_some_iff {atEnd : Fault} {exponent : Option Int} :
    (exponentPart atEnd).run? s = some (exponent, rest) ↔
      ∃ e, WrittenExponent exponent e ∧ s = e ++ rest ∧
        (exponent = none → rest.head? ≠ some 'e' ∧ rest.head? ≠ some 'E') ∧
        (exponent ≠ none → NoDigit rest) := by
  unfold exponentPart
  rw [run?_bind, run?_peek, Option.bind_some]
  constructor
  · intro h
    split at h
    · rename_i hletter
      obtain ⟨letter, tail, hl, rfl⟩ : ∃ letter tail, (letter = 'e' ∨ letter = 'E') ∧
          s = letter :: tail := by
        rcases hletter with hhead | hhead
        · obtain ⟨tail, rfl⟩ := List.head?_eq_some_iff.mp hhead
          exact ⟨'e', tail, .inl rfl, rfl⟩
        · obtain ⟨tail, rfl⟩ := List.head?_eq_some_iff.mp hhead
          exact ⟨'E', tail, .inr rfl, rfl⟩
      simp only [run?_bind, run?_advance, Option.bind_some, List.drop_one, List.tail_cons,
        run?_peek] at h
      -- what is left is a sign, if any, and digits
      split at h
      · rename_i hsign
        simp only [run?_bind, run?_advance, Option.bind_some, List.drop_one,
          Option.bind_eq_some_iff] at h
        obtain ⟨⟨digits, r⟩, hrun, hout⟩ := h
        obtain ⟨hdigits, hstop, htail⟩ := run?_someDigits_eq_some_iff.mp hrun
        rcases hsign with hhead | hhead
        · obtain ⟨tail, rfl⟩ := List.head?_eq_some_iff.mp hhead
          cases hout
          rw [List.tail_cons] at htail
          exact ⟨letter :: '+' :: digits, .plus hl hdigits, by simp [htail], by simp,
            fun _ => hstop⟩
        · obtain ⟨tail, rfl⟩ := List.head?_eq_some_iff.mp hhead
          cases hout
          rw [List.tail_cons] at htail
          exact ⟨letter :: '-' :: digits, .minus hl hdigits, by simp [htail], by simp,
            fun _ => hstop⟩
      · rename_i hsign
        rw [run?_bind, Option.bind_eq_some_iff] at h
        obtain ⟨⟨digits, r⟩, hrun, hout⟩ := h
        obtain ⟨hdigits, hstop, rfl⟩ := run?_someDigits_eq_some_iff.mp hrun
        rw [if_neg (not_or.mp hsign).2] at hout
        cases hout
        exact ⟨letter :: digits, .bare hl hdigits, rfl, by simp, fun _ => hstop⟩
    · rename_i hletter
      cases h
      exact ⟨[], .absent, rfl, fun _ => not_or.mp hletter, by simp⟩
  · rintro ⟨e, he, rfl, hletter, hstop⟩
    cases he with
    | absent =>
      rw [List.nil_append, if_neg (not_or.mpr (hletter rfl))]
      rfl
    | @bare letter digits hl hdigits =>
      have hrun : (someDigits atEnd).run? (digits ++ rest) = some (digits, rest) :=
        run?_someDigits_eq_some_iff.mpr ⟨hdigits, hstop (by simp), rfl⟩
      -- a digit is no sign
      obtain ⟨c, tail, rfl, hc⟩ := exists_cons_of_isDigits hdigits
      have hplus : c ≠ '+' := by
        rintro rfl
        cases hc
      have hminus : c ≠ '-' := by
        rintro rfl
        cases hc
      rw [List.cons_append] at hrun
      simp [hl, hrun, hplus, hminus]
    | @plus letter digits hl hdigits =>
      have hrun : (someDigits atEnd).run? (digits ++ rest) = some (digits, rest) :=
        run?_someDigits_eq_some_iff.mpr ⟨hdigits, hstop (by simp), rfl⟩
      simp [hl, hrun]
    | @minus letter digits hl hdigits =>
      have hrun : (someDigits atEnd).run? (digits ++ rest) = some (digits, rest) :=
        run?_someDigits_eq_some_iff.mpr ⟨hdigits, hstop (by simp), rfl⟩
      simp [hl, hrun]

/-- A written number starts with its sign or with a digit. -/
theorem exists_cons_of_written {m : Numeral} (h : m.Written s) :
    ∃ c tail, s = c :: tail ∧ (c = '-' ∨ c.isDigit = true) := by
  cases h with
  | @mk negative whole f e fraction exponent hwhole hzero hf he =>
    cases negative with
    | true => exact ⟨'-', _, rfl, .inl rfl⟩
    | false =>
      obtain ⟨c, tail, rfl, hc⟩ := exists_cons_of_isDigits hwhole
      exact ⟨c, tail ++ (f ++ e), rfl, .inr hc⟩

/-- After the sign a number is its three parts. -/
theorem run?_numeral (atEnd : Fault) (s : Text) : (numeral atEnd).run? s =
    ((wholePart atEnd).run? (if s.head? = some '-' then s.drop 1 else s)).bind fun whole =>
      ((fractionPart atEnd).run? whole.2).bind fun fraction =>
        ((exponentPart atEnd).run? fraction.2).map fun exponent =>
          (⟨s.head? == some '-', whole.1, fraction.1, exponent.1⟩, exponent.2) := by
  unfold numeral
  by_cases hsign : s.head? = some '-'
  · simp [hsign, Option.map_eq_bind]
  · simp [hsign, Option.map_eq_bind]

/-- Before an exponent, or where a number ends, stands neither digit nor point. -/
theorem exponent_head {exponent : Option Int} {e : Text} (he : WrittenExponent exponent e)
    (hrest : Stops rest) :
    ∀ c, (e ++ rest).head? = some c → c.isDigit = false ∧ c ≠ '.' := by
  have hletter : ∀ {letter : Char}, letter = 'e' ∨ letter = 'E' →
      letter.isDigit = false ∧ letter ≠ '.' := by
    rintro _ (rfl | rfl) <;> decide
  intro c hc
  cases he with
  | absent => exact ⟨(hrest c hc).1, (hrest c hc).2.1⟩
  | bare hl =>
    cases hc
    exact hletter hl
  | plus hl =>
    cases hc
    exact hletter hl
  | minus hl =>
    cases hc
    exact hletter hl

/-- A number is read as it is written, if nothing follows that could belong to it. -/
theorem run?_numeral_written {atEnd : Fault} {m : Numeral} (h : m.Written s)
    (hrest : Stops rest) : (numeral atEnd).run? (s ++ rest) = some (m, rest) := by
  cases h with
  | @mk negative whole f e fraction exponent hwhole hzero hf he =>
    have hhead := exponent_head he hrest
    have hexponent : (exponentPart atEnd).run? (e ++ rest) = some (exponent, rest) :=
      run?_exponentPart_eq_some_iff.mpr ⟨e, he, rfl,
        fun _ => ⟨fun hc => (hrest _ hc).2.2.1 rfl, fun hc => (hrest _ hc).2.2.2 rfl⟩,
        fun _ c hc => (hrest c hc).1⟩
    have hfraction : (fractionPart atEnd).run? (f ++ (e ++ rest)) = some (fraction, e ++ rest) :=
      run?_fractionPart_eq_some_iff.mpr ⟨f, hf, rfl, fun _ hc => (hhead _ hc).2 rfl,
        fun _ c hc => (hhead c hc).1⟩
    have hstop : NoDigit (f ++ (e ++ rest)) := by
      intro c hc
      cases hf with
      | absent => exact (hhead c hc).1
      | present =>
        cases hc
        rfl
    have hnumber : (wholePart atEnd).run? (whole ++ (f ++ (e ++ rest))) =
        some (whole, f ++ (e ++ rest)) :=
      run?_wholePart_eq_some_iff.mpr ⟨hwhole, hzero, hstop, rfl⟩
    rw [run?_numeral]
    cases negative with
    | true => simp [hnumber, hfraction, hexponent]
    | false =>
      -- a digit is no sign
      obtain ⟨c, tail, rfl, hc⟩ := exists_cons_of_isDigits hwhole
      have hminus : c ≠ '-' := by
        rintro rfl
        cases hc
      rw [List.cons_append] at hnumber
      simp [hminus, hnumber, hfraction, hexponent]

/-- What is read as a number is one. -/
theorem of_run?_numeral {atEnd : Fault} {m : Numeral}
    (h : (numeral atEnd).run? s = some (m, rest)) : ∃ p, m.Written p ∧ s = p ++ rest := by
  rw [run?_numeral] at h
  simp only [Option.bind_eq_some_iff, Option.map_eq_some_iff] at h
  obtain ⟨⟨whole, r₁⟩, hwhole, ⟨fraction, r₂⟩, hfraction, ⟨exponent, r₃⟩, hexponent, hout⟩ := h
  cases hout
  obtain ⟨hdigits, hzero, -, hs⟩ := run?_wholePart_eq_some_iff.mp hwhole
  obtain ⟨f, hf, rfl, -⟩ := run?_fractionPart_eq_some_iff.mp hfraction
  obtain ⟨e, he, rfl, -⟩ := run?_exponentPart_eq_some_iff.mp hexponent
  refine ⟨_, .mk hdigits hzero hf he, ?_⟩
  by_cases hsign : s.head? = some '-'
  · obtain ⟨tail, rfl⟩ := List.head?_eq_some_iff.mp hsign
    simpa using hs
  · rw [if_neg hsign] at hs
    simpa [hsign] using hs

end Reader

end NotebookExtract.Json
