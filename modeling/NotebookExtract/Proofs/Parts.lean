import Mathlib.Logic.ExistsUnique
import NotebookExtract.Proofs.Source

/-!
# The parts of a line

Every line, well formed or not, is made of items of code and one tail: nothing, a
comment, or a literal that the line does not close. It is so in one way only, because
the first character of a part says which part it is, and inside a literal the same
holds of its units.

The walk to the comment is tied to these parts: what is left of a line is its text
without a comment in its tail, trimmed at the end.
-/

namespace NotebookExtract.Source

open Scan

/-- What stands behind the last item of a line. -/
inductive Tail where
  | nothing
  | comment (text : Text)
  /-- A literal without its closing quote; a backslash may stand alone at its end. -/
  | openLiteral (q : BlockQuote) (units : List (LiteralUnit q)) (backslash : Bool)

/-- A line as its items and its tail. -/
structure LineParts where
  items : List Item
  tail : Tail

/-- The end of an open literal. -/
def openEnd (backslash : Bool) : Text :=
  if backslash then ['\\'] else []

def Tail.text : Tail → Text
  | .nothing => []
  | .comment text => '#' :: text
  | .openLiteral q units backslash =>
    q.char :: (units.flatMap LiteralUnit.text ++ openEnd backslash)

/-- What of a tail is code: all but a comment. -/
def Tail.code : Tail → Text
  | .comment _ => []
  | tail => tail.text

def LineParts.text (parts : LineParts) : Text :=
  codeText parts.items ++ parts.tail.text

/-- The line without a comment in its tail. -/
def LineParts.code (parts : LineParts) : Text :=
  codeText parts.items ++ parts.tail.code

variable {q : BlockQuote}

theorem char_ne_backslash (q : BlockQuote) : q.char ≠ '\\' := by
  cases q <;> decide

theorem char_ne_hash (q : BlockQuote) : q.char ≠ '#' := by
  cases q <;> decide

theorem char_inj {p q : BlockQuote} (h : p.char = q.char) : p = q := by
  revert h
  cases p <;> cases q <;> decide

/-! ## The units of a literal -/

/-- Where the units of a literal end: at its closing quote, or with the line, and then
perhaps before a backslash that protects nothing. -/
inductive UnitsEnd (q : BlockQuote) : Text → Prop where
  | close (rest : Text) : UnitsEnd q (q.char :: rest)
  | line (backslash : Bool) : UnitsEnd q (openEnd backslash)

/-- No unit starts where the units end. -/
theorem not_unitsEnd_unit (u : LiteralUnit q) (rest : Text) : ¬ UnitsEnd q (u.text ++ rest) := by
  intro hend
  generalize htext : u.text ++ rest = text at hend
  cases hend with
  | close more =>
    cases u with
    | plain c h => exact h.2 (List.cons.inj htext).1
    | escaped c => exact char_ne_backslash q (List.cons.inj htext).1.symm
  | line backslash =>
    cases u with
    | plain c h =>
      cases backslash with
      | false => cases htext
      | true => exact h.1 (List.cons.inj htext).1
    | escaped c => cases backslash <;> cases htext

/-- The first unit of a text is determined by the text. -/
theorem unit_append_inj {u v : LiteralUnit q} {a b : Text} (h : u.text ++ a = v.text ++ b) :
    u = v ∧ a = b := by
  cases u with
  | plain c hc =>
    cases v with
    | plain d hd =>
      obtain ⟨rfl, rfl⟩ := List.cons.inj h
      exact ⟨rfl, rfl⟩
    | escaped d => exact absurd (List.cons.inj h).1 hc.1
  | escaped c =>
    cases v with
    | plain d hd => exact absurd (List.cons.inj h).1.symm hd.1
    | escaped d =>
      obtain ⟨rfl, rfl⟩ := List.cons.inj (List.cons.inj h).2
      exact ⟨rfl, rfl⟩

/-- So are all units up to where they end. -/
theorem units_append_inj {us vs : List (LiteralUnit q)} {a b : Text}
    (ha : UnitsEnd q a) (hb : UnitsEnd q b)
    (h : us.flatMap LiteralUnit.text ++ a = vs.flatMap LiteralUnit.text ++ b) :
    us = vs ∧ a = b := by
  induction us generalizing vs with
  | nil =>
    cases vs with
    | nil => exact ⟨rfl, h⟩
    | cons v vs =>
      rw [List.flatMap_nil, List.nil_append, List.flatMap_cons, List.append_assoc] at h
      exact absurd (h ▸ ha) (not_unitsEnd_unit v _)
  | cons u us ih =>
    cases vs with
    | nil =>
      rw [List.flatMap_nil, List.nil_append, List.flatMap_cons, List.append_assoc] at h
      exact absurd (h ▸ hb) (not_unitsEnd_unit u _)
    | cons v vs =>
      rw [List.flatMap_cons, List.flatMap_cons, List.append_assoc, List.append_assoc] at h
      obtain ⟨rfl, hrest⟩ := unit_append_inj h
      obtain ⟨rfl, hab⟩ := ih hrest
      exact ⟨rfl, hab⟩

/-- Behind a quote every text is units up to where they end. -/
theorem exists_units (q : BlockQuote) (text : Text) : ∃ (units : List (LiteralUnit q)) (rest : Text),
    UnitsEnd q rest ∧ units.flatMap LiteralUnit.text ++ rest = text := by
  match text with
  | [] => exact ⟨[], [], .line false, rfl⟩
  | c :: text =>
    by_cases hquote : c = q.char
    · exact ⟨[], c :: text, hquote ▸ .close text, rfl⟩
    · by_cases hback : c = '\\'
      · subst hback
        match text with
        | [] => exact ⟨[], ['\\'], .line true, rfl⟩
        | d :: text =>
          obtain ⟨units, rest, hend, htext⟩ := exists_units q text
          exact ⟨.escaped d :: units, rest, hend, by simp [LiteralUnit.text, htext]⟩
      · obtain ⟨units, rest, hend, htext⟩ := exists_units q text
        exact ⟨.plain c ⟨hback, hquote⟩ :: units, rest, hend, by simp [LiteralUnit.text, htext]⟩
termination_by text.length

/-! ## One way to take a line apart -/

/-- The first item of a text is determined by the text. -/
theorem item_append_inj {i j : Item} {a b : Text} (h : i.text ++ a = j.text ++ b) :
    i = j ∧ a = b := by
  cases i with
  | plain c hc =>
    cases j with
    | plain d hd =>
      obtain ⟨rfl, rfl⟩ := List.cons.inj h
      exact ⟨rfl, rfl⟩
    | literal q units => exact absurd (List.cons.inj h).1 (ne_char_of_isPlain hc q)
  | literal p us =>
    cases j with
    | plain d hd => exact absurd (List.cons.inj h).1.symm (ne_char_of_isPlain hd p)
    | literal q vs =>
      obtain ⟨hchar, hrest⟩ := List.cons.inj h
      obtain rfl := char_inj hchar
      have hunits : us.flatMap LiteralUnit.text ++ p.char :: a =
          vs.flatMap LiteralUnit.text ++ p.char :: b := by simpa using hrest
      obtain ⟨rfl, hclose⟩ := units_append_inj (.close a) (.close b) hunits
      exact ⟨rfl, (List.cons.inj hclose).2⟩

/-- No item starts where the tail stands. -/
theorem item_append_ne_tail (i : Item) (rest : Text) (tail : Tail) :
    i.text ++ rest ≠ tail.text := by
  intro h
  cases tail with
  | nothing => cases i <;> cases h
  | comment text =>
    cases i with
    | plain c hc =>
      obtain rfl : c = '#' := (List.cons.inj h).1
      exact absurd hc (by decide)
    | literal q units => exact char_ne_hash q (List.cons.inj h).1
  | openLiteral q vs backslash =>
    cases i with
    | plain c hc => exact ne_char_of_isPlain hc q (List.cons.inj h).1
    | literal p us =>
      -- the closing quote of the item would stand at the end of the line
      obtain ⟨hchar, hrest⟩ := List.cons.inj h
      obtain rfl := char_inj hchar
      have hunits : us.flatMap LiteralUnit.text ++ p.char :: rest =
          vs.flatMap LiteralUnit.text ++ openEnd backslash := by simpa using hrest
      obtain ⟨-, hclose⟩ := units_append_inj (.close rest) (.line backslash) hunits
      cases backslash with
      | false => cases hclose
      | true => exact char_ne_backslash p (List.cons.inj hclose).1

theorem openEnd_inj {a b : Bool} (h : openEnd a = openEnd b) : a = b := by
  revert h
  cases a <;> cases b <;> decide

/-- Tails are told apart by their text. -/
theorem tail_text_inj {s t : Tail} (h : s.text = t.text) : s = t := by
  cases s with
  | nothing =>
    cases t with
    | nothing => rfl
    | comment b => cases h
    | openLiteral q units backslash => cases h
  | comment a =>
    cases t with
    | nothing => cases h
    | comment b => rw [(List.cons.inj h).2]
    | openLiteral q units backslash => exact absurd (List.cons.inj h).1.symm (char_ne_hash q)
  | openLiteral p us a =>
    cases t with
    | nothing => cases h
    | comment b => exact absurd (List.cons.inj h).1 (char_ne_hash p)
    | openLiteral q vs b =>
      obtain ⟨hchar, hrest⟩ := List.cons.inj h
      obtain rfl := char_inj hchar
      obtain ⟨rfl, hend⟩ := units_append_inj (.line a) (.line b) hrest
      rw [openEnd_inj hend]

/-- A line can be taken apart in one way only. -/
theorem parts_text_inj {a b : LineParts} (h : a.text = b.text) : a = b := by
  obtain ⟨is, s⟩ := a
  obtain ⟨js, t⟩ := b
  simp only [LineParts.text, codeText] at h
  induction is generalizing js with
  | nil =>
    cases js with
    | nil => rw [tail_text_inj h]
    | cons j js =>
      rw [List.flatMap_nil, List.nil_append, List.flatMap_cons, List.append_assoc] at h
      exact absurd h.symm (item_append_ne_tail j _ s)
  | cons i is ih =>
    cases js with
    | nil =>
      rw [List.flatMap_nil, List.nil_append, List.flatMap_cons, List.append_assoc] at h
      exact absurd h (item_append_ne_tail i _ t)
    | cons j js =>
      rw [List.flatMap_cons, List.flatMap_cons, List.append_assoc, List.append_assoc] at h
      obtain ⟨rfl, hrest⟩ := item_append_inj h
      obtain ⟨rfl, rfl⟩ := LineParts.mk.inj (ih js hrest)
      rfl

/-- The line whose parts are those of another with one item in front. -/
def LineParts.cons (item : Item) (parts : LineParts) : LineParts :=
  ⟨item :: parts.items, parts.tail⟩

theorem LineParts.text_cons (item : Item) (parts : LineParts) :
    (parts.cons item).text = item.text ++ parts.text := by
  simp [LineParts.cons, LineParts.text, codeText]

/-- Every line can be taken apart. -/
theorem exists_parts (line : Text) : ∃ parts : LineParts, parts.text = line := by
  match line with
  | [] => exact ⟨⟨[], .nothing⟩, rfl⟩
  | c :: rest =>
    by_cases hhash : c = '#'
    · exact ⟨⟨[], .comment rest⟩, by rw [hhash]; rfl⟩
    · by_cases hquote : ∃ q : BlockQuote, c = q.char
      · obtain ⟨q, rfl⟩ := hquote
        obtain ⟨units, after, hend, hunits⟩ := exists_units q rest
        cases hend with
        | line backslash => exact ⟨⟨[], .openLiteral q units backslash⟩, by rw [← hunits]; rfl⟩
        | close after =>
          have hshorter : after.length < rest.length := by
            rw [← hunits, List.length_append, List.length_cons]
            omega
          obtain ⟨parts, hparts⟩ := exists_parts after
          refine ⟨parts.cons (.literal q units), ?_⟩
          rw [LineParts.text_cons, hparts, ← hunits]
          simp [Item.text]
      · have hplain : isPlain c = true := by
          have hdouble : c ≠ '"' := fun h => hquote ⟨.double, h⟩
          have hsingle : c ≠ '\'' := fun h => hquote ⟨.single, h⟩
          simp [isPlain, hhash, hdouble, hsingle]
        obtain ⟨parts, hparts⟩ := exists_parts rest
        exact ⟨parts.cons (.plain c hplain), by rw [LineParts.text_cons, hparts]; rfl⟩
termination_by line.length

/-! ## The walk and the parts -/

/-- Behind the items the walk keeps the tail unless it is a comment. -/
theorem codeFrom_tail (tail : Tail) : codeFrom .code tail.text = tail.code := by
  cases tail with
  | nothing => rfl
  | comment text => exact codeFrom_hash text
  | openLiteral q units backslash =>
    have hend : codeFrom q.literalMode (openEnd backslash) = openEnd backslash := by
      cases backslash <;> cases q <;> rfl
    have hcode : (Tail.openLiteral q units backslash).code =
        q.char :: (units.flatMap LiteralUnit.text ++ openEnd backslash) := rfl
    rw [hcode, Tail.text, codeFrom_open, codeFrom_units, hend]

/-- **The meaning of dropping a comment.** Every line is items of code and a tail in
exactly one way, and what is left of it without its comment is all but the comment in
its tail, trimmed at the end. -/
theorem dropComment_eq_code :
    (∀ line : Text, ∃! parts : LineParts, parts.text = line) ∧
      ∀ parts : LineParts, dropComment parts.text = Text.trimEnd parts.code := by
  refine ⟨?_, ?_⟩
  · intro line
    obtain ⟨parts, hparts⟩ := exists_parts line
    exact ⟨parts, hparts, fun other hother => parts_text_inj (hother.trans hparts.symm)⟩
  · intro parts
    rw [dropComment, LineParts.text, codeFrom_codeText, codeFrom_tail, LineParts.code]

-- A backslash keeps the literal open, so the hash is part of it and stays.
example : dropComment "a = 'b\\' # c ".toList = "a = 'b\\' # c".toList := by
  decide

end NotebookExtract.Source
