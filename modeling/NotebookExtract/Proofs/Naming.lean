import NotebookExtract.Artifact.Name
import NotebookExtract.Proofs.Text

/-!
# The words of a name

A base name is made by turning every unsafe character into an underscore, shortening
runs of underscores and taking one off each end. Its meaning is simpler: the words of the
notebook's name, which are its longest runs of letters, digits and dashes, joined by
single underscores. That it is safe, tidy and the base name of itself follows from there.
-/

namespace NotebookExtract.Naming

variable {name? : Option Text} {format : ArtifactFormat} {c d : Char} {text rest w : Text}
  {ws : List Text}

/-! ## Words -/

/-- The characters of a word: the safe ones but for the underscore. -/
def isWordChar (c : Char) : Bool :=
  c.isAlphanum || c == '-'

/-- The words of a text: its longest runs of such characters, in order. -/
def words (text : Text) : List Text :=
  (text.splitOnP (!isWordChar ·)).filter (!·.isEmpty)

/-- Words with single underscores between them. -/
def joinWords (ws : List Text) : Text :=
  ['_'].intercalate ws

/-- A text is one word. -/
structure IsWord (w : Text) : Prop where
  ne_nil : w ≠ []
  chars : ∀ c ∈ w, isWordChar c = true

theorem ne_underscore_of_isWordChar (h : isWordChar c = true) : c ≠ '_' := by
  rintro rfl
  exact absurd h (by decide)

/-- Safe are the characters of words, and the underscore. -/
theorem isSafe_iff : isSafe c = true ↔ isWordChar c = true ∨ c = '_' := by
  rw [isSafe, isWordChar, Bool.or_eq_true, beq_iff_eq]

/-- No safe character divides a path. -/
theorem isSeparator_of_isSafe (h : isSafe c = true) : isSeparator c = false := by
  rw [← Bool.not_eq_true]
  intro hsep
  rw [isSeparator, Bool.or_eq_true, beq_iff_eq, beq_iff_eq] at hsep
  rcases hsep with rfl | rfl <;> exact absurd h (by decide)

@[simp] theorem words_nil : words [] = [] := by
  simp [words, List.splitOnP_nil]

/-- Any other character ends a word. -/
theorem words_append_cons (hd : isWordChar d = false) (x y : Text) :
    words (x ++ d :: y) = words x ++ words y := by
  rw [words, List.splitOnP_append_cons x y (by simp [hd]), List.filter_append]
  rfl

theorem words_cons_of_not (hd : isWordChar d = false) (rest : Text) :
    words (d :: rest) = words rest := by
  simpa using words_append_cons hd [] rest

/-- A word is the only word in it. -/
theorem words_of_isWord (h : IsWord w) : words w = [w] := by
  have hpieces : w.splitOnP (!isWordChar ·) = [w] := by
    apply List.splitOnP_eq_singleton
    intro c hc
    simp [h.chars c hc]
  simp [words, hpieces, h.ne_nil]

/-- A character of a word that is followed by none is a word of its own. -/
theorem words_cons_cons_of_not (hc : isWordChar c = true) (hd : isWordChar d = false)
    (rest : Text) : words (c :: d :: rest) = [c] :: words (d :: rest) := by
  have hword : IsWord [c] := ⟨by simp, by simp [hc]⟩
  have hsplit := words_append_cons hd [c] rest
  rw [words_of_isWord hword] at hsplit
  rw [words_cons_of_not hd]
  exact hsplit

/-- A character of a word that is followed by another one joins its word. -/
theorem exists_words_cons_cons (hc : isWordChar c = true) (hd : isWordChar d = true)
    (rest : Text) : ∃ w ws, words (d :: rest) = w :: ws ∧
      words (c :: d :: rest) = (c :: w) :: ws := by
  rcases List.exists_cons_of_ne_nil (List.splitOnP_ne_nil (!isWordChar ·) rest) with
    ⟨first, later, hsplit⟩
  refine ⟨d :: first, later.filter (!·.isEmpty), ?_, ?_⟩
  · simp [words, List.splitOnP_cons_eq_if_modifyHead, hsplit, hd]
  · simp [words, List.splitOnP_cons_eq_if_modifyHead, hsplit, hc, hd]

/-- The words of a text are words. -/
theorem isWord_of_mem_words (h : w ∈ words text) : IsWord w := by
  induction text generalizing w with
  | nil => simp at h
  | cons c rest ih =>
    cases hc : isWordChar c with
    | false =>
      rw [words_cons_of_not hc] at h
      exact ih h
    | true =>
      have hsingle : IsWord [c] := ⟨by simp, by simp [hc]⟩
      cases rest with
      | nil =>
        rw [words_of_isWord hsingle] at h
        rw [List.mem_singleton.mp h]
        exact hsingle
      | cons d rest =>
        cases hd : isWordChar d with
        | false =>
          rw [words_cons_cons_of_not hc hd] at h
          rcases List.mem_cons.mp h with rfl | hlater
          · exact hsingle
          · exact ih hlater
        | true =>
          rcases exists_words_cons_cons hc hd rest with ⟨first, ws, hrest, hwords⟩
          rw [hwords] at h
          rcases List.mem_cons.mp h with rfl | hlater
          · have hfirst : IsWord first := ih (by rw [hrest]; exact List.mem_cons_self)
            refine ⟨by simp, ?_⟩
            intro e he
            rcases List.mem_cons.mp he with rfl | hmem
            · exact hc
            · exact hfirst.chars e hmem
          · exact ih (by rw [hrest]; exact List.mem_cons_of_mem first hlater)

/-! ## Joined words -/

theorem joinWords_cons (w : Text) (hws : ws ≠ []) :
    joinWords (w :: ws) = w ++ '_' :: joinWords ws := by
  rw [joinWords, List.intercalate_cons_of_ne_nil hws, List.append_assoc]
  rfl

/-- Joined words are found again. -/
theorem words_joinWords (h : ∀ w ∈ ws, IsWord w) : words (joinWords ws) = ws := by
  induction ws with
  | nil => exact words_nil
  | cons w ws ih =>
    have hw := words_of_isWord (h w List.mem_cons_self)
    have hws := ih fun v hv => h v (List.mem_cons_of_mem w hv)
    by_cases hnil : ws = []
    · rw [hnil, joinWords, List.intercalate_singleton, hw]
    · rw [joinWords_cons w hnil, words_append_cons (by decide), hw, hws]
      rfl

/-- Between the underscores of joined words stand the words. -/
theorem splitOn_joinWords (hne : ws ≠ []) (h : ∀ w ∈ ws, IsWord w) :
    (joinWords ws).splitOn '_' = ws := by
  apply List.splitOn_intercalate '_' _ hne
  intro w hw hmem
  exact ne_underscore_of_isWordChar ((h w hw).chars '_' hmem) rfl

theorem joinWords_eq_nil_iff (h : ∀ w ∈ ws, IsWord w) : joinWords ws = [] ↔ ws = [] :=
  Text.intercalate_eq_nil_iff ['_'] fun w hw => (h w hw).ne_nil

theorem isSafe_of_mem_joinWords (h : ∀ w ∈ ws, IsWord w) (hc : c ∈ joinWords ws) :
    isSafe c = true := by
  induction ws with
  | nil => cases hc
  | cons w ws ih =>
    have hw : c ∈ w → isSafe c = true := by
      intro hmem
      exact isSafe_iff.mpr (Or.inl ((h w List.mem_cons_self).chars c hmem))
    by_cases hnil : ws = []
    · rw [hnil, joinWords, List.intercalate_singleton] at hc
      exact hw hc
    · rw [joinWords_cons w hnil, List.mem_append, List.mem_cons] at hc
      rcases hc with hmem | rfl | hlater
      · exact hw hmem
      · decide
      · exact ih (fun v hv => h v (List.mem_cons_of_mem w hv)) hlater

/-- A name in which nothing is to be cleaned. -/
structure IsTidy (name : Text) : Prop where
  ne_nil : name ≠ []
  chars : ∀ c ∈ name, isWordChar c = true ∨ c = '_'
  not_doubled : ¬ ['_', '_'] <:+: name
  head_ne : name.head? ≠ some '_'
  last_ne : name.getLast? ≠ some '_'

/-- Joined words are tidy: an underscore at an end or beside another one would leave a
piece between underscores empty. -/
theorem isTidy_joinWords (hne : ws ≠ []) (h : ∀ w ∈ ws, IsWord w) : IsTidy (joinWords ws) := by
  have hpiece : ∀ x y, joinWords ws = x ++ '_' :: y → [] ∉ x.splitOn '_' ++ y.splitOn '_' := by
    intro x y hxy hmem
    rw [← List.splitOn_append_cons_self, ← hxy, splitOn_joinWords hne h] at hmem
    exact (h [] hmem).ne_nil rfl
  refine ⟨mt (joinWords_eq_nil_iff h).mp hne, ?_, ?_, ?_, ?_⟩
  · intro c hc
    exact isSafe_iff.mp (isSafe_of_mem_joinWords h hc)
  · rintro ⟨x, y, hxy⟩
    have hsplit : joinWords ws = x ++ '_' :: ([] ++ '_' :: y) := by
      rw [← hxy]
      simp
    apply hpiece x ([] ++ '_' :: y) hsplit
    rw [List.splitOn_append_cons_self]
    simp
  · intro hhead
    rcases List.head?_eq_some_iff.mp hhead with ⟨y, hy⟩
    apply hpiece [] y hy
    simp
  · intro hlast
    rcases List.getLast?_eq_some_iff.mp hlast with ⟨x, hx⟩
    apply hpiece x [] hx
    simp

/-! ## Cleaning -/

/-- A text without one underscore at its start. -/
def dropLeading (text : Text) : Text :=
  if text.head? = some '_' then text.drop 1 else text

/-- A text without one underscore at its end. -/
def dropTrailing (text : Text) : Text :=
  if text.getLast? = some '_' then text.dropLast else text

/-- A stem with its unsafe characters replaced and its underscores squeezed. -/
def cleaned (stem : Text) : Text :=
  squeeze (sanitize stem)

theorem trimUnderscore_eq (text : Text) :
    trimUnderscore text = dropTrailing (dropLeading text) := rfl

theorem dropLeading_cons_of_ne (hc : c ≠ '_') (rest : Text) :
    dropLeading (c :: rest) = c :: rest := by
  simp [dropLeading, hc]

theorem dropTrailing_cons_cons (c d : Char) (rest : Text) :
    dropTrailing (c :: d :: rest) = c :: dropTrailing (d :: rest) := by
  rw [dropTrailing, dropTrailing, List.getLast?_cons_cons, List.dropLast_cons_cons]
  split <;> rfl

/-- Squeezing leaves any other character. -/
theorem squeeze_cons_of_ne (hc : c ≠ '_') (rest : Text) :
    squeeze (c :: rest) = c :: squeeze rest := by
  rw [squeeze]
  rintro - hunderscore -
  exact hc hunderscore

/-- After an underscore, squeezing takes away the one that would follow. -/
theorem squeeze_underscore (rest : Text) :
    squeeze ('_' :: rest) = '_' :: dropLeading (squeeze rest) := by
  induction rest with
  | nil => rfl
  | cons c rest ih =>
    by_cases hc : c = '_'
    · have hagain : squeeze ('_' :: '_' :: rest) = squeeze ('_' :: rest) := by rw [squeeze]
      rw [hc, hagain, ih]
      rfl
    · have hkept : squeeze ('_' :: c :: rest) = '_' :: squeeze (c :: rest) := by
        rw [squeeze]
        rintro later - hlater
        rw [List.cons.injEq] at hlater
        exact hc hlater.1
      rw [hkept, squeeze_cons_of_ne hc, dropLeading_cons_of_ne hc]

/-- A squeezed text has no second underscore behind a leading one. -/
theorem head?_dropLeading_squeeze (text : Text) : (dropLeading (squeeze text)).head? ≠ some '_' := by
  induction text with
  | nil => simp [squeeze, dropLeading]
  | cons c rest ih =>
    by_cases hc : c = '_'
    · rw [hc, squeeze_underscore]
      exact ih
    · rw [squeeze_cons_of_ne hc, dropLeading_cons_of_ne hc]
      simpa using hc

theorem cleaned_cons (hc : isWordChar c = true) (rest : Text) :
    cleaned (c :: rest) = c :: cleaned rest := by
  have hsafe : isSafe c = true := isSafe_iff.mpr (Or.inl hc)
  have hsanitize : sanitize (c :: rest) = c :: sanitize rest := by simp [sanitize, hsafe]
  rw [cleaned, hsanitize, squeeze_cons_of_ne (ne_underscore_of_isWordChar hc)]
  rfl

theorem cleaned_cons_of_not (hd : isWordChar d = false) (rest : Text) :
    cleaned (d :: rest) = '_' :: dropLeading (cleaned rest) := by
  have hsanitize : sanitize (d :: rest) = '_' :: sanitize rest := by
    rw [sanitize, List.map_cons]
    by_cases hsafe : isSafe d = true
    · -- the only safe character outside words is the underscore itself
      rcases isSafe_iff.mp hsafe with hword | hunderscore
      · rw [hd] at hword
        cases hword
      · rw [if_pos hsafe, hunderscore]
        rfl
    · rw [if_neg hsafe]
      rfl
  rw [cleaned, hsanitize, squeeze_underscore]
  rfl

/-- Cleaning a stem joins its words. -/
theorem trimUnderscore_cleaned (stem : Text) :
    trimUnderscore (cleaned stem) = joinWords (words stem) := by
  induction stem with
  | nil => rfl
  | cons c rest ih =>
    rw [trimUnderscore_eq] at ih ⊢
    cases hc : isWordChar c with
    | false =>
      rw [cleaned_cons_of_not hc, words_cons_of_not hc, ← ih]
      rfl
    | true =>
      have hne := ne_underscore_of_isWordChar hc
      rw [cleaned_cons hc, dropLeading_cons_of_ne hne]
      cases rest with
      | nil =>
        have hword : IsWord [c] := ⟨by simp, by simp [hc]⟩
        rw [words_of_isWord hword]
        simp [cleaned, sanitize, squeeze, dropTrailing, joinWords, hne]
      | cons d rest =>
        cases hd : isWordChar d with
        | true =>
          rcases exists_words_cons_cons hc hd rest with ⟨w, ws, hrest, hwords⟩
          rw [cleaned_cons hd, dropLeading_cons_of_ne (ne_underscore_of_isWordChar hd), hrest] at ih
          rw [cleaned_cons hd, dropTrailing_cons_cons, ih, hwords]
          cases ws <;> simp [joinWords]
        | false =>
          -- the word ends here, and at most one underscore stands before the next one
          have hlater : ∀ v ∈ words (d :: rest), IsWord v := fun v => isWord_of_mem_words
          have hstart := head?_dropLeading_squeeze (sanitize rest)
          rw [cleaned_cons_of_not hd] at ih ⊢
          rw [words_cons_cons_of_not hc hd]
          have hcleaned : dropLeading (squeeze (sanitize rest)) = dropLeading (cleaned rest) := rfl
          rw [hcleaned] at hstart
          have hdrop : dropLeading ('_' :: dropLeading (cleaned rest)) =
              dropLeading (cleaned rest) := rfl
          rw [hdrop] at ih
          generalize dropLeading (cleaned rest) = tail at ih hstart ⊢
          cases tail with
          | nil =>
            have hnone : words (d :: rest) = [] := (joinWords_eq_nil_iff hlater).mp ih.symm
            rw [hnone]
            simp [dropTrailing, joinWords]
          | cons e tail =>
            have he : e ≠ '_' := by simpa using hstart
            have hsome : words (d :: rest) ≠ [] := by
              intro hnil
              rw [hnil] at ih
              cases tail with
              | nil => simp [dropTrailing, joinWords, he] at ih
              | cons f tail => simp [dropTrailing_cons_cons, joinWords] at ih
            rw [dropTrailing_cons_cons, dropTrailing_cons_cons, ih, joinWords_cons [c] hsome]
            rfl

/-! ## The base name -/

/-- The part of a path behind its last separator, or the whole path if it has none. -/
def IsLastPart (path file : Text) : Prop :=
  (∀ c ∈ file, isSeparator c = false) ∧
    (path = file ∨ ∃ folder c, isSeparator c = true ∧ path = folder ++ c :: file)

/-- The extension of a notebook, in any case of letters. -/
def IsNotebookSuffix (suffix : Text) : Prop :=
  suffix.map Char.toLower = notebookSuffix
deriving Decidable

/-- A file name without one extension of a notebook at its end, if it has one. -/
def IsStem (file stem : Text) : Prop :=
  (∃ suffix, IsNotebookSuffix suffix ∧ file = stem ++ suffix) ∨
    (stem = file ∧ ∀ front suffix, IsNotebookSuffix suffix → file ≠ front ++ suffix)

theorem lastComponent_of_isLastPart {path file : Text} (h : IsLastPart path file) :
    lastComponent path = file := by
  have hfile : ∀ c ∈ file.reverse, (!isSeparator c) = true := by
    intro c hc
    simp [h.1 c (List.mem_reverse.mp hc)]
  rcases h.2 with rfl | ⟨folder, c, hc, rfl⟩
  · rw [lastComponent, ← List.append_nil path.reverse, List.takeWhile_append_of_pos hfile]
    simp
  · have hreverse : (folder ++ c :: file).reverse = file.reverse ++ c :: folder.reverse := by simp
    rw [lastComponent, hreverse, List.takeWhile_append_of_pos hfile]
    simp [hc]

theorem exists_isLastPart (path : Text) : ∃ file, IsLastPart path file := by
  induction path with
  | nil => exact ⟨[], by simp, Or.inl rfl⟩
  | cons c rest ih =>
    rcases ih with ⟨file, hfile, rfl | ⟨folder, d, hd, rfl⟩⟩
    · cases hc : isSeparator c with
      | true => exact ⟨rest, hfile, Or.inr ⟨[], c, hc, rfl⟩⟩
      | false => exact ⟨c :: rest, List.forall_mem_cons.mpr ⟨hc, hfile⟩, Or.inl rfl⟩
    · exact ⟨file, hfile, Or.inr ⟨c :: folder, d, hd, rfl⟩⟩

theorem exists_isStem (file : Text) : ∃ stem, IsStem file stem := by
  by_cases hsuffix : ∃ stem suffix, IsNotebookSuffix suffix ∧ file = stem ++ suffix
  · rcases hsuffix with ⟨stem, hstem⟩
    exact ⟨stem, Or.inl hstem⟩
  · refine ⟨file, Or.inr ⟨rfl, ?_⟩⟩
    intro front suffix hnotebook hfile
    exact hsuffix ⟨front, suffix, hnotebook, hfile⟩

theorem dropNotebookSuffix_of_isStem {file stem : Text} (h : IsStem file stem) :
    dropNotebookSuffix file = stem := by
  rcases h with ⟨suffix, hsuffix, rfl⟩ | ⟨rfl, hnone⟩
  · have hlength : suffix.length = notebookSuffix.length := by
      have hmap := congrArg List.length hsuffix
      rwa [List.length_map] at hmap
    have hstem : (stem ++ suffix).length - notebookSuffix.length = stem.length := by
      rw [List.length_append, hlength]
      omega
    rw [dropNotebookSuffix, hstem, List.take_left, List.drop_left]
    exact if_pos hsuffix
  · rw [dropNotebookSuffix]
    apply if_neg
    intro hsuffix
    exact hnone _ _ hsuffix (List.take_append_drop _ _).symm

/-- The base name of a path is made of the words of its stem. -/
theorem baseName_of_isStem {path file stem : Text} (hfile : IsLastPart path file)
    (hstem : IsStem file stem) : baseName (some path) =
      if words stem = [] then fallback else joinWords (words stem) := by
  have hwords : ∀ w ∈ words stem, IsWord w := fun w => isWord_of_mem_words
  have hjoined : trimUnderscore (squeeze (sanitize (dropNotebookSuffix (lastComponent path)))) =
      joinWords (words stem) := by
    rw [lastComponent_of_isLastPart hfile, dropNotebookSuffix_of_isStem hstem]
    exact trimUnderscore_cleaned stem
  rw [baseName, hjoined]
  by_cases hnone : words stem = []
  · rw [if_pos hnone, hnone]
    rfl
  · rw [if_neg hnone]
    split
    · rename_i hnil
      exact absurd ((joinWords_eq_nil_iff hwords).mp hnil) hnone
    · rfl

/-- Every base name is made of words, also the one without a notebook's name. -/
theorem exists_words_of_baseName (name? : Option Text) :
    ∃ ws, ws ≠ [] ∧ (∀ w ∈ ws, IsWord w) ∧ baseName name? = joinWords ws := by
  have hfallback : ∀ w ∈ [fallback], IsWord w := by
    intro w hw
    rw [List.mem_singleton.mp hw]
    exact ⟨by decide, List.all_eq_true.mp (by decide)⟩
  have hjoin : fallback = joinWords [fallback] := List.intercalate_singleton.symm
  cases name? with
  | none => exact ⟨[fallback], by simp, hfallback, hjoin⟩
  | some path =>
    rcases exists_isLastPart path with ⟨file, hfile⟩
    rcases exists_isStem file with ⟨stem, hstem⟩
    rw [baseName_of_isStem hfile hstem]
    by_cases hnone : words stem = []
    · rw [if_pos hnone]
      exact ⟨[fallback], by simp, hfallback, hjoin⟩
    · rw [if_neg hnone]
      exact ⟨words stem, hnone, fun w => isWord_of_mem_words, rfl⟩

/-- A base name has safe characters only. -/
theorem isSafe_of_mem_baseName (h : c ∈ baseName name?) : isSafe c = true := by
  rcases exists_words_of_baseName name? with ⟨ws, -, hws, hbase⟩
  rw [hbase] at h
  exact isSafe_of_mem_joinWords hws h

/-- No letter becomes a dot in lower case. -/
theorem eq_dot_of_toLower (h : c.toLower = '.') : c = '.' := by
  rcases Text.toLower_eq_or c with hsame | ⟨-, hlower⟩
  · rw [← hsame, h]
  · rw [h] at hlower
    exact absurd hlower (by decide)

/-- Joined words have no folder and no extension to lose. -/
theorem baseName_joinWords (hne : ws ≠ []) (h : ∀ w ∈ ws, IsWord w) :
    baseName (some (joinWords ws)) = joinWords ws := by
  have hsafe : ∀ c ∈ joinWords ws, isSafe c = true := fun c => isSafe_of_mem_joinWords h
  have hfile : IsLastPart (joinWords ws) (joinWords ws) := by
    refine ⟨?_, Or.inl rfl⟩
    intro c hc
    exact isSeparator_of_isSafe (hsafe c hc)
  have hstem : IsStem (joinWords ws) (joinWords ws) := by
    refine Or.inr ⟨rfl, ?_⟩
    intro front suffix hsuffix hsplit
    -- the extension starts with a dot, which is not safe
    have hdot : '.' ∈ suffix.map Char.toLower := by
      rw [show suffix.map Char.toLower = notebookSuffix from hsuffix]
      decide
    rcases List.mem_map.mp hdot with ⟨c, hc, hlower⟩
    rw [eq_dot_of_toLower hlower] at hc
    have hmem : '.' ∈ joinWords ws := by
      rw [hsplit]
      exact List.mem_append_right front hc
    exact absurd (hsafe '.' hmem) (by decide)
  rw [baseName_of_isStem hfile hstem, words_joinWords h, if_neg hne]

/-- **A base name is the words of the notebook's name.** Of the part of the path behind its
last separator, without one extension of a notebook, the words are joined by single
underscores; without any word the name is the fallback. So every base name is tidy and the
base name of itself. -/
theorem baseName_eq_joined_words (path : Text) :
    (∃ file stem, IsLastPart path file ∧ IsStem file stem) ∧
    (∀ file stem, IsLastPart path file → IsStem file stem → baseName (some path) =
      if words stem = [] then fallback else joinWords (words stem)) ∧
    IsTidy (baseName (some path)) ∧
    baseName (some (baseName (some path))) = baseName (some path) := by
  rcases exists_isLastPart path with ⟨file, hfile⟩
  rcases exists_isStem file with ⟨stem, hstem⟩
  rcases exists_words_of_baseName (some path) with ⟨ws, hne, hws, hbase⟩
  refine ⟨⟨file, stem, hfile, hstem⟩, ?_, ?_, ?_⟩
  · intro file stem hfile hstem
    exact baseName_of_isStem hfile hstem
  · rw [hbase]
    exact isTidy_joinWords hne hws
  · rw [hbase]
    exact baseName_joinWords hne hws

/-- A path with both separators, an extension in upper case before another one, and
underscores at both ends of its name. -/
def untidyPath : Text :=
  "C:\\work/a\\__données -- v2.IPYNB.ipynb".toList

theorem baseName_untidyPath :
    IsLastPart untidyPath "__données -- v2.IPYNB.ipynb".toList ∧
      IsStem "__données -- v2.IPYNB.ipynb".toList "__données -- v2.IPYNB".toList ∧
      baseName (some untidyPath) = "donn_es_--_v2_IPYNB".toList := by
  have hnone : "__données -- v2.IPYNB.ipynb".toList.all (!isSeparator ·) = true := by decide
  have hfile : IsLastPart untidyPath "__données -- v2.IPYNB.ipynb".toList :=
    ⟨by simpa using hnone, Or.inr ⟨"C:\\work/a".toList, '\\', by decide, by decide⟩⟩
  have hstem : IsStem "__données -- v2.IPYNB.ipynb".toList "__données -- v2.IPYNB".toList :=
    Or.inl ⟨".ipynb".toList, by decide, by decide⟩
  have hbase := (baseName_eq_joined_words untidyPath).2.1 _ _ hfile hstem
  exact ⟨hfile, hstem, hbase.trans (by decide)⟩

end NotebookExtract.Naming
