import NotebookExtract.Text.Utf8
import NotebookExtract.Proofs.Lists

/-!
# Texts are found again in their bytes

Every text has bytes, and bytes without a fault are those of one text: decoding undoes
encoding and the other way round. A slash stands in the bytes of no other character, so
a path is divided in the same places whether it is taken as a text or as bytes.
-/

namespace NotebookExtract.Text

open Unfinished

/-! ## One character -/

theorem toNat_ofNat {n : Nat} (h : n < 256) : (UInt8.ofNat n).toNat = n := by
  simpa using Nat.mod_eq_of_lt h

theorem ofNat_eq_of_toNat {n : Nat} (byte : UInt8) (h : n = byte.toNat) :
    UInt8.ofNat n = byte := by
  rw [h, UInt8.ofNat_toNat]

/-- The bytes of a character by the size of its code point. -/
theorem encode_cases (c : Char) :
    (c.toNat < 0x80 ∧ String.utf8EncodeChar c = [UInt8.ofNat c.toNat]) ∨
    (0x80 ≤ c.toNat ∧ c.toNat < 0x800 ∧ String.utf8EncodeChar c =
      [UInt8.ofNat (c.toNat / 64 + 0xC0), UInt8.ofNat (c.toNat % 64 + 0x80)]) ∨
    (0x800 ≤ c.toNat ∧ c.toNat < 0x10000 ∧ String.utf8EncodeChar c =
      [UInt8.ofNat (c.toNat / 4096 + 0xE0), UInt8.ofNat (c.toNat / 64 % 64 + 0x80),
        UInt8.ofNat (c.toNat % 64 + 0x80)]) ∨
    (0x10000 ≤ c.toNat ∧ String.utf8EncodeChar c =
      [UInt8.ofNat (c.toNat / 262144 + 0xF0), UInt8.ofNat (c.toNat / 4096 % 64 + 0x80),
        UInt8.ofNat (c.toNat / 64 % 64 + 0x80), UInt8.ofNat (c.toNat % 64 + 0x80)]) := by
  have hvalid : c.toNat < 0xD800 ∨ 0xDFFF < c.toNat ∧ c.toNat < 0x110000 := c.valid
  have htwo : c.toNat < 0x800 → c.toNat / 64 % 32 = c.toNat / 64 := by omega
  have hthree : c.toNat < 0x10000 → c.toNat / 4096 % 16 = c.toNat / 4096 := by omega
  have hfour : c.toNat / 262144 % 8 = c.toNat / 262144 := by omega
  unfold String.utf8EncodeChar
  simp only [show c.val.toNat = c.toNat from rfl]
  by_cases h1 : c.toNat ≤ 0x7F
  · exact Or.inl ⟨by omega, by rw [if_pos h1]⟩
  · by_cases h2 : c.toNat ≤ 0x7FF
    · refine Or.inr (Or.inl ⟨by omega, by omega, ?_⟩)
      rw [if_neg h1, if_pos h2, htwo (by omega)]
    · by_cases h3 : c.toNat ≤ 0xFFFF
      · refine Or.inr (Or.inr (Or.inl ⟨by omega, by omega, ?_⟩))
        rw [if_neg h1, if_neg h2, if_pos h3, hthree (by omega)]
      · refine Or.inr (Or.inr (Or.inr ⟨by omega, ?_⟩))
        rw [if_neg h1, if_neg h2, if_neg h3, hfour]

/-! ## Decoding what was encoded -/

/-- The next byte of a character goes on with it. -/
theorem decodeFrom_next {start : Unfinished} {n : Nat} {rest : Bytes} (hlow : start.low ≤ n)
    (hhigh : n ≤ start.high) (hbyte : n < 256) (hlater : start.later ≠ 0) :
    decodeFrom (some start) (UInt8.ofNat n :: rest) =
      decodeFrom (some { later := start.later - 1, bits := start.bits * 64 + (n - 0x80) }) rest := by
  rcases start with ⟨later, bits, low, high⟩
  cases later with
  | zero => exact absurd rfl hlater
  | succ later =>
    simp only [decodeFrom, decodeNext, toNat_ofNat hbyte]
    rw [if_pos ⟨hlow, hhigh⟩]
    rfl

/-- The last byte of a character ends it. -/
theorem decodeFrom_last {start : Unfinished} {n : Nat} {rest : Bytes} (hlow : start.low ≤ n)
    (hhigh : n ≤ start.high) (hbyte : n < 256) (hlater : start.later = 0) :
    decodeFrom (some start) (UInt8.ofNat n :: rest) =
      some (Char.ofNat (start.bits * 64 + (n - 0x80))) :: decodeFrom none rest := by
  simp only [decodeFrom, decodeNext, toNat_ofNat hbyte]
  rw [if_pos ⟨hlow, hhigh⟩, hlater]
  rfl

/-- The first byte of a longer character starts it. -/
theorem decodeFrom_first {start : Unfinished} {n : Nat} {rest : Bytes} (hlong : 0x80 ≤ n)
    (hbyte : n < 256) (hstart : start? n = some start) :
    decodeFrom none (UInt8.ofNat n :: rest) = decodeFrom (some start) rest := by
  simp only [decodeFrom, decodeFirst, toNat_ofNat hbyte]
  rw [if_neg (by omega), hstart]
  rfl

/-- A character is decoded from its bytes. -/
theorem decodeFrom_encode (c : Char) (rest : Bytes) :
    decodeFrom none (String.utf8EncodeChar c ++ rest) = some c :: decodeFrom none rest := by
  have hvalid : c.toNat < 0xD800 ∨ 0xDFFF < c.toNat ∧ c.toNat < 0x110000 := c.valid
  have hback : ∀ n, n = c.toNat → some (Char.ofNat n) = some c := by
    rintro n rfl
    rw [Char.ofNat_toNat]
  rcases encode_cases c with ⟨hsize, hbytes⟩ | ⟨hlow, hhigh, hbytes⟩ | ⟨hlow, hhigh, hbytes⟩ |
    ⟨hlow, hbytes⟩
  · rw [hbytes, List.singleton_append]
    simp only [decodeFrom, decodeFirst, toNat_ofNat (show c.toNat < 256 by omega)]
    rw [if_pos hsize, Char.ofNat_toNat]
    rfl
  · have hstart : start? (c.toNat / 64 + 0xC0) =
        some { later := 0, bits := c.toNat / 64 + 0xC0 - 0xC0 } := by
      rw [start?, if_pos (by omega)]
    rw [hbytes]
    simp only [List.cons_append, List.nil_append]
    rw [decodeFrom_first (by omega) (by omega) hstart,
      decodeFrom_last (by simp) (by simp only; omega) (by omega) rfl]
    exact congrArg (· :: _) (hback _ (by simp only; omega))
  · have hstart : start? (c.toNat / 4096 + 0xE0) =
        some { later := 1, bits := c.toNat / 4096 + 0xE0 - 0xE0,
               low := if c.toNat / 4096 + 0xE0 = 0xE0 then 0xA0 else 0x80,
               high := if c.toNat / 4096 + 0xE0 = 0xED then 0x9F else 0xBF } := by
      rw [start?, if_neg (by omega), if_pos (by omega)]
    rw [hbytes]
    simp only [List.cons_append, List.nil_append]
    rw [decodeFrom_first (by omega) (by omega) hstart,
      decodeFrom_next (by simp only; split <;> omega) (by simp only; split <;> omega) (by omega)
        (by simp),
      decodeFrom_last (by simp) (by simp only; omega) (by omega) rfl]
    exact congrArg (· :: _) (hback _ (by simp only; omega))
  · have hstart : start? (c.toNat / 262144 + 0xF0) =
        some { later := 2, bits := c.toNat / 262144 + 0xF0 - 0xF0,
               low := if c.toNat / 262144 + 0xF0 = 0xF0 then 0x90 else 0x80,
               high := if c.toNat / 262144 + 0xF0 = 0xF4 then 0x8F else 0xBF } := by
      rw [start?, if_neg (by omega), if_neg (by omega), if_pos (by omega)]
    rw [hbytes]
    simp only [List.cons_append, List.nil_append]
    rw [decodeFrom_first (by omega) (by omega) hstart,
      decodeFrom_next (by simp only; split <;> omega) (by simp only; split <;> omega) (by omega)
        (by simp),
      decodeFrom_next (by simp) (by simp only; omega) (by omega) (by simp),
      decodeFrom_last (by simp) (by simp only; omega) (by omega) rfl]
    exact congrArg (· :: _) (hback _ (by simp only; omega))

@[simp] theorem toUtf8_append (a b : Text) : toUtf8 (a ++ b) = toUtf8 a ++ toUtf8 b :=
  List.flatMap_append

theorem decodeFrom_toUtf8 (text : Text) : decodeFrom none (toUtf8 text) = text.map some := by
  induction text with
  | nil => rfl
  | cons c rest ih =>
    rw [toUtf8, List.flatMap_cons, decodeFrom_encode]
    exact congrArg (some c :: ·) ih

/-! ## Encoding what was decoded -/

variable {start : Unfinished} {bytes : Bytes} {c : Char} {found : List (Option Char)}

/-- Where a character comes out of what was started, the next byte is within its bounds. -/
theorem exists_byte_of_decodeFrom (h : decodeFrom (some start) bytes = some c :: found) :
    ∃ byte rest, bytes = byte :: rest ∧ start.low ≤ byte.toNat ∧ byte.toNat ≤ start.high ∧
      decodeNext start byte =
        (match start.later with
        | 0 => ([some (Char.ofNat (start.bits * 64 + (byte.toNat - 0x80)))], none)
        | later + 1 =>
          ([], some { later := later, bits := start.bits * 64 + (byte.toNat - 0x80) })) ∧
      (decodeNext start byte).1 ++ decodeFrom (decodeNext start byte).2 rest = some c :: found := by
  cases bytes with
  | nil => simp [decodeFrom] at h
  | cons byte rest =>
    rw [decodeFrom] at h
    by_cases hin : start.low ≤ byte.toNat ∧ byte.toNat ≤ start.high
    · refine ⟨byte, rest, rfl, hin.1, hin.2, ?_, h⟩
      unfold decodeNext
      exact if_pos hin
    · -- a byte out of bounds is a fault
      rw [decodeNext, if_neg hin] at h
      simp at h

/-- The last byte of a character. -/
theorem exists_last_of_decodeFrom (hlater : start.later = 0)
    (h : decodeFrom (some start) bytes = some c :: found) :
    ∃ byte rest, bytes = byte :: rest ∧ start.low ≤ byte.toNat ∧ byte.toNat ≤ start.high ∧
      Char.ofNat (start.bits * 64 + (byte.toNat - 0x80)) = c ∧ found = decodeFrom none rest := by
  rcases exists_byte_of_decodeFrom h with ⟨byte, rest, hbytes, hlow, hhigh, hnext, hfound⟩
  rw [hnext, hlater] at hfound
  simp only [List.singleton_append, List.cons.injEq, Option.some.injEq] at hfound
  exact ⟨byte, rest, hbytes, hlow, hhigh, hfound.1, hfound.2.symm⟩

/-- A byte before the last one of a character. -/
theorem exists_next_of_decodeFrom {later : Nat} (hlater : start.later = later + 1)
    (h : decodeFrom (some start) bytes = some c :: found) :
    ∃ byte rest, bytes = byte :: rest ∧ start.low ≤ byte.toNat ∧ byte.toNat ≤ start.high ∧
      decodeFrom (some { later := later, bits := start.bits * 64 + (byte.toNat - 0x80) }) rest =
        some c :: found := by
  rcases exists_byte_of_decodeFrom h with ⟨byte, rest, hbytes, hlow, hhigh, hnext, hfound⟩
  rw [hnext, hlater] at hfound
  exact ⟨byte, rest, hbytes, hlow, hhigh, hfound⟩

/-- The bytes of a character whose code point is known, one case for each length. -/
theorem encode_ofNat {n : Nat} (h : n < 0xD800 ∨ 0xDFFF < n ∧ n < 0x110000) :
    (n < 0x80 → String.utf8EncodeChar (Char.ofNat n) = [UInt8.ofNat n]) ∧
    (0x80 ≤ n → n < 0x800 → String.utf8EncodeChar (Char.ofNat n) =
      [UInt8.ofNat (n / 64 + 0xC0), UInt8.ofNat (n % 64 + 0x80)]) ∧
    (0x800 ≤ n → n < 0x10000 → String.utf8EncodeChar (Char.ofNat n) =
      [UInt8.ofNat (n / 4096 + 0xE0), UInt8.ofNat (n / 64 % 64 + 0x80),
        UInt8.ofNat (n % 64 + 0x80)]) ∧
    (0x10000 ≤ n → String.utf8EncodeChar (Char.ofNat n) =
      [UInt8.ofNat (n / 262144 + 0xF0), UInt8.ofNat (n / 4096 % 64 + 0x80),
        UInt8.ofNat (n / 64 % 64 + 0x80), UInt8.ofNat (n % 64 + 0x80)]) := by
  have hback : (Char.ofNat n).toNat = n := by
    rw [Char.ofNat, dif_pos h]
    rfl
  have hcases := encode_cases (Char.ofNat n)
  rw [hback] at hcases
  rcases hcases with ⟨hsize, hbytes⟩ | ⟨hlow, hhigh, hbytes⟩ | ⟨hlow, hhigh, hbytes⟩ |
    ⟨hlow, hbytes⟩
  · exact ⟨fun _ => hbytes, by omega, by omega, by omega⟩
  · exact ⟨by omega, fun _ _ => hbytes, by omega, by omega⟩
  · exact ⟨by omega, by omega, fun _ _ => hbytes, by omega⟩
  · exact ⟨by omega, by omega, by omega, fun _ => hbytes⟩

/-- A character comes out of its own bytes only. -/
theorem exists_encode_of_decodeFrom (h : decodeFrom none bytes = some c :: found) :
    ∃ rest, bytes = String.utf8EncodeChar c ++ rest ∧ found = decodeFrom none rest := by
  cases bytes with
  | nil => simp [decodeFrom] at h
  | cons first rest =>
    rw [decodeFrom, decodeFirst] at h
    by_cases hascii : first.toNat < 0x80
    · simp only [if_pos hascii, List.singleton_append, List.cons.injEq, Option.some.injEq] at h
      refine ⟨rest, ?_, h.2.symm⟩
      rw [← h.1, (encode_ofNat (by omega)).1 hascii, UInt8.ofNat_toNat, List.singleton_append]
    · rw [if_neg hascii] at h
      cases hstart : start? first.toNat with
      | none => simp [hstart] at h
      | some start =>
        simp only [hstart, List.nil_append] at h
        -- the first byte says how many follow
        rw [start?] at hstart
        split at hstart
        · cases hstart
          rcases exists_last_of_decodeFrom rfl h with ⟨b, rest, rfl, hlow, hhigh, rfl, rfl⟩
          simp only at hlow hhigh ⊢
          refine ⟨rest, ?_, rfl⟩
          rw [(encode_ofNat (by omega)).2.1 (by omega) (by omega),
            ofNat_eq_of_toNat first (by omega), ofNat_eq_of_toNat b (by omega)]
          rfl
        · split at hstart
          · cases hstart
            rcases exists_next_of_decodeFrom rfl h with ⟨b, rest, rfl, hlow, hhigh, h⟩
            rcases exists_last_of_decodeFrom rfl h with ⟨b', rest, rfl, hlow', hhigh', rfl, rfl⟩
            simp only at hlow hhigh hlow' hhigh' ⊢
            -- the bounds of the next byte keep out the short ones and the halves of pairs
            have hbounds : 0x80 ≤ b.toNat ∧ b.toNat ≤ 0xBF ∧ (first.toNat = 0xE0 → 0xA0 ≤ b.toNat) ∧
                (first.toNat = 0xED → b.toNat ≤ 0x9F) := by
              split at hlow <;> split at hhigh <;> omega
            refine ⟨rest, ?_, rfl⟩
            rw [(encode_ofNat (by omega)).2.2.1 (by omega) (by omega),
              ofNat_eq_of_toNat first (by omega), ofNat_eq_of_toNat b (by omega),
              ofNat_eq_of_toNat b' (by omega)]
            rfl
          · split at hstart
            · cases hstart
              rcases exists_next_of_decodeFrom rfl h with ⟨b, rest, rfl, hlow, hhigh, h⟩
              rcases exists_next_of_decodeFrom rfl h with ⟨b', rest, rfl, hlow', hhigh', h⟩
              rcases exists_last_of_decodeFrom rfl h with
                ⟨b'', rest, rfl, hlow'', hhigh'', rfl, rfl⟩
              simp only at hlow hhigh hlow' hhigh' hlow'' hhigh'' ⊢
              -- here they keep out the short ones and what is beyond the last character
              have hbounds : 0x80 ≤ b.toNat ∧ b.toNat ≤ 0xBF ∧
                  (first.toNat = 0xF0 → 0x90 ≤ b.toNat) ∧
                  (first.toNat = 0xF4 → b.toNat ≤ 0x8F) := by
                split at hlow <;> split at hhigh <;> omega
              refine ⟨rest, ?_, rfl⟩
              rw [(encode_ofNat (by omega)).2.2.2 (by omega),
                ofNat_eq_of_toNat first (by omega), ofNat_eq_of_toNat b (by omega),
                ofNat_eq_of_toNat b' (by omega), ofNat_eq_of_toNat b'' (by omega)]
              rfl
            · cases hstart

/-- What was started comes to something, if only to a fault. -/
theorem decodeFrom_some_ne_nil (start : Unfinished) (bytes : Bytes) :
    decodeFrom (some start) bytes ≠ [] := by
  induction bytes generalizing start with
  | nil => simp [decodeFrom]
  | cons byte rest ih =>
    rcases start with ⟨later, bits, low, high⟩
    rw [decodeFrom, decodeNext]
    split
    · cases later with
      | zero => simp
      | succ later => simpa using ih _
    · simp

theorem decodeFrom_cons_ne_nil (byte : UInt8) (rest : Bytes) :
    decodeFrom none (byte :: rest) ≠ [] := by
  rw [decodeFrom, decodeFirst]
  split
  · simp
  · cases start? byte.toNat with
    | none => simp
    | some start => simpa using decodeFrom_some_ne_nil start rest

/-- Bytes without a fault are those of what they spell. -/
theorem eq_toUtf8_of_decodeFrom {text : Text} (h : decodeFrom none bytes = text.map some) :
    bytes = toUtf8 text := by
  induction text generalizing bytes with
  | nil =>
    cases bytes with
    | nil => rfl
    | cons first rest => exact absurd h (decodeFrom_cons_ne_nil first rest)
  | cons c text ih =>
    rcases exists_encode_of_decodeFrom h with ⟨rest, rfl, hrest⟩
    rw [ih hrest.symm]
    rfl

/-- Bytes spell a text exactly when they are its bytes. -/
theorem ofUtf8?_eq_some_iff {text : Text} : ofUtf8? bytes = some text ↔ bytes = toUtf8 text := by
  rw [ofUtf8?, Lists.mapM_id_eq_some_iff]
  constructor
  · exact eq_toUtf8_of_decodeFrom
  · rintro rfl
    exact decodeFrom_toUtf8 text

@[simp] theorem ofUtf8?_toUtf8 (text : Text) : ofUtf8? (toUtf8 text) = some text :=
  ofUtf8?_eq_some_iff.mpr rfl

theorem toUtf8_inj {text other : Text} : toUtf8 text = toUtf8 other ↔ text = other := by
  constructor
  · intro h
    have hsame := congrArg ofUtf8? h
    rwa [ofUtf8?_toUtf8, ofUtf8?_toUtf8, Option.some.injEq] at hsame
  · exact congrArg toUtf8

/-! ## Pieces between slashes -/

theorem slash_mem_encode {c : Char} (h : '/'.toUInt8 ∈ String.utf8EncodeChar c) : c = '/' := by
  have hslash : '/'.toUInt8.toNat = 47 := by decide
  have hbyte : ∀ n, '/'.toUInt8 = UInt8.ofNat n → n < 256 → n = 47 := by
    intro n heq hlt
    rw [heq, toNat_ofNat hlt] at hslash
    exact hslash
  have hvalid : c.toNat < 0xD800 ∨ 0xDFFF < c.toNat ∧ c.toNat < 0x110000 := c.valid
  rcases encode_cases c with ⟨hsize, hbytes⟩ | ⟨hlow, hhigh, hbytes⟩ | ⟨hlow, hhigh, hbytes⟩ |
    ⟨hlow, hbytes⟩
  · rw [hbytes, List.mem_singleton] at h
    have hc : c.toNat = '/'.toNat := hbyte _ h (by omega)
    exact Char.toNat_inj.mp hc
  · rw [hbytes] at h
    simp only [List.mem_cons, List.not_mem_nil, or_false] at h
    rcases h with h | h <;> have := hbyte _ h (by omega) <;> omega
  · rw [hbytes] at h
    simp only [List.mem_cons, List.not_mem_nil, or_false] at h
    rcases h with h | h | h <;> have := hbyte _ h (by omega) <;> omega
  · rw [hbytes] at h
    simp only [List.mem_cons, List.not_mem_nil, or_false] at h
    rcases h with h | h | h | h <;> have := hbyte _ h (by omega) <;> omega

theorem slash_mem_toUtf8_iff {text : Text} : '/'.toUInt8 ∈ toUtf8 text ↔ '/' ∈ text := by
  rw [toUtf8, List.mem_flatMap]
  constructor
  · rintro ⟨c, hc, hmem⟩
    rwa [← slash_mem_encode hmem]
  · intro h
    exact ⟨'/', h, by decide⟩

/-- The bytes of joined texts are joined bytes. -/
theorem toUtf8_intercalate (parts : List Text) :
    toUtf8 (['/'].intercalate parts) = ['/'.toUInt8].intercalate (parts.map toUtf8) := by
  induction parts with
  | nil => rfl
  | cons part rest ih =>
    cases rest with
    | nil => simp
    | cons next rest =>
      have hslash : toUtf8 ['/'] = ['/'.toUInt8] := by decide
      rw [List.intercalate_cons_cons, toUtf8_append, toUtf8_append, ih, hslash]
      simp only [List.map_cons, List.intercalate_cons_cons]

/-- A path is divided alike as a text and as bytes. -/
theorem splitOn_toUtf8 (text : Text) :
    (toUtf8 text).splitOn '/'.toUInt8 = (text.splitOn '/').map toUtf8 := by
  have hpieces : ∀ piece ∈ (text.splitOn '/').map toUtf8, '/'.toUInt8 ∉ piece := by
    intro piece hpiece
    rcases List.mem_map.mp hpiece with ⟨part, hpart, rfl⟩
    rw [slash_mem_toUtf8_iff]
    exact Lists.not_mem_of_mem_splitOn hpart
  have hjoined : toUtf8 text = ['/'.toUInt8].intercalate ((text.splitOn '/').map toUtf8) := by
    rw [← toUtf8_intercalate, List.intercalate_splitOn]
  rw [hjoined]
  exact List.splitOn_intercalate '/'.toUInt8 hpieces (by simp)

end NotebookExtract.Text
