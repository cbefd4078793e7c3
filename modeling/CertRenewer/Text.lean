import Mathlib

/-!
# Texts

The text operations of the standard library that the program uses, on lists of
characters: UTF-8, white space, lines and words. A line ends at any of ten
characters, of which LF is one.
-/

namespace CertRenewer

namespace Text

/-! ## Characters -/

/-- The characters of `str.isspace`, which `strip` and `split` remove. -/
def isSpace (c : Char) : Bool :=
  let n := c.toNat
  (9 ≤ n && n ≤ 13) || (28 ≤ n && n ≤ 32) || n == 0x85 || n == 0xa0 || n == 0x1680 ||
    (0x2000 ≤ n && n ≤ 0x200a) || n == 0x2028 || n == 0x2029 || n == 0x202f || n == 0x205f ||
    n == 0x3000

/-- The characters at which `str.splitlines` ends a line. -/
def isLineBreak (c : Char) : Bool :=
  let n := c.toNat
  (10 ≤ n && n ≤ 13) || (28 ≤ n && n ≤ 30) || n == 0x85 || n == 0x2028 || n == 0x2029

/-- `str.strip`. -/
def strip (text : List Char) : List Char := (text.dropWhile isSpace).rdropWhile isSpace

theorem mem_of_mem_strip {text : List Char} {c : Char} (h : c ∈ strip text) : c ∈ text :=
  (List.dropWhile_sublist isSpace).subset ((List.rdropWhile_prefix isSpace _).subset h)

theorem strip_strip (text : List Char) : strip (strip text) = strip text := by
  have first : (strip text).dropWhile isSpace = strip text := by
    rw [List.dropWhile_eq_self_iff]
    intro some
    have long : 0 < (text.dropWhile isSpace).length :=
      Nat.lt_of_lt_of_le some (List.rdropWhile_prefix isSpace _).length_le
    have same : (strip text)[0] = (text.dropWhile isSpace)[0] := (List.rdropWhile_prefix isSpace _).getElem some
    rw [same]
    exact List.dropWhile_get_zero_not isSpace text long
  rw [strip, first]
  exact List.rdropWhile_idempotent _ _

/-! ## Lines -/

/-- The lines of a text after the beginning of the first. CR LF ends one line. -/
def linesFrom (line : List Char) : List Char → List (List Char)
  | [] => if line = [] then [] else [line]
  | '\r' :: '\n' :: rest => line :: linesFrom [] rest
  | c :: rest => if isLineBreak c then line :: linesFrom [] rest else linesFrom (line ++ [c]) rest

/-- `str.splitlines`. -/
def splitlines (text : List Char) : List (List Char) := linesFrom [] text

theorem inside_of_all {text : List Char} (h : (text.all fun c => !isLineBreak c) = true) :
    ∀ c ∈ text, isLineBreak c = false := by
  simpa using h

/-- After an LF the lines start anew. -/
theorem linesFrom_append (line : List Char) {text : List Char} (rest : List Char)
    (last : text.getLast? = some '\n') : linesFrom line (text ++ rest) = linesFrom line text ++ linesFrom [] rest := by
  have tail {c : Char} {text : List Char} (last : (c :: text).getLast? = some '\n') :
      text = [] ∧ c = '\n' ∨ text.getLast? = some '\n' := by
    cases text with
    | nil => exact Or.inl ⟨rfl, by simpa using last⟩
    | cons d text => exact Or.inr (by simpa using last)
  fun_induction linesFrom line text with
  | case1 => cases last
  | case2 line some => cases last
  | case3 line text ih =>
    have later : text = [] ∨ text.getLast? = some '\n' := by
      rcases tail last with ⟨no, _⟩ | last
      · cases no
      · exact (tail last).imp And.left id
    simp only [List.cons_append, linesFrom]
    rcases later with rfl | last
    · rfl
    · rw [ih last]
  | case4 line c text other break_ ih =>
    rcases tail last with ⟨rfl, rfl⟩ | last
    · rfl
    · have apart (more : List Char) (cr : c = '\r') (lf : text ++ rest = '\n' :: more) : False := by
        cases text with
        | nil => cases last
        | cons d text => exact other text cr (by rw [List.cons_append] at lf; rw [List.cons.inj lf |>.1])
      rw [List.cons_append, linesFrom.eq_3 _ _ _ apart, if_pos break_, ih last]
      rfl
  | case5 line c text other inside ih =>
    rcases tail last with ⟨rfl, rfl⟩ | last
    · exact absurd (by decide) inside
    · have apart (more : List Char) (cr : c = '\r') (lf : text ++ rest = '\n' :: more) : False := by
        cases text with
        | nil => cases last
        | cons d text => exact other text cr (by rw [List.cons_append] at lf; rw [List.cons.inj lf |>.1])
      rw [List.cons_append, linesFrom.eq_3 _ _ _ apart, if_neg inside, ih last]

/-- Characters that end no line stay on their line. -/
theorem linesFrom_inside (line : List Char) {text : List Char} (rest : List Char)
    (inside : ∀ c ∈ text, isLineBreak c = false) : linesFrom line (text ++ rest) = linesFrom (line ++ text) rest := by
  induction text generalizing line with
  | nil => simp
  | cons c text ih =>
    obtain ⟨here, later⟩ := List.forall_mem_cons.mp inside
    have apart (more : List Char) (cr : c = '\r') (_ : text ++ rest = '\n' :: more) : False := by
      subst cr
      cases here
    rw [List.cons_append, linesFrom.eq_3 _ _ _ apart, if_neg (by simp [here]), ih _ later]
    simp

/-- What stands before the first line is put before it. -/
theorem linesFrom_extend (front : List Char) {line text first : List Char} {others : List (List Char)}
    (h : linesFrom line text = first :: others) : linesFrom (front ++ line) text = (front ++ first) :: others := by
  fun_induction linesFrom line text generalizing first with
  | case1 => cases h
  | case2 line some =>
    cases h
    rw [linesFrom, if_neg (by simp [some])]
  | case3 line text ih =>
    cases h
    rfl
  | case4 line c text other break_ ih =>
    cases h
    rw [linesFrom.eq_3 _ _ _ other, if_pos break_]
  | case5 line c text other inside ih =>
    rw [linesFrom.eq_3 _ _ _ other, if_neg inside, List.append_assoc]
    exact ih h

/-- No line contains a character that ends a line. -/
theorem isLineBreak_of_mem_linesFrom {line text found : List Char} (inside : ∀ c ∈ line, isLineBreak c = false)
    (h : found ∈ linesFrom line text) : ∀ c ∈ found, isLineBreak c = false := by
  fun_induction linesFrom line text with
  | case1 => cases h
  | case2 line some =>
    obtain rfl := List.mem_singleton.mp h
    exact inside
  | case3 line text ih =>
    rcases List.mem_cons.mp h with rfl | h
    · exact inside
    · exact ih (by simp) h
  | case4 line c text other break_ ih =>
    rcases List.mem_cons.mp h with rfl | h
    · exact inside
    · exact ih (by simp) h
  | case5 line c text other stays ih =>
    refine ih ?_ h
    intro d member
    rcases List.mem_append.mp member with earlier | last
    · exact inside d earlier
    · obtain rfl := List.mem_singleton.mp last
      simpa using stays

theorem splitlines_line {line : List Char} (rest : List Char) (inside : ∀ c ∈ line, isLineBreak c = false) :
    splitlines (line ++ '\n' :: rest) = line :: splitlines rest := by
  rw [splitlines, linesFrom_inside [] _ inside]
  simp [linesFrom, isLineBreak, splitlines]

/-- The lines of a text that only LF ends, after the beginning of the first. -/
def lfLinesFrom (line : List Char) : List Char → List (List Char)
  | [] => if line = [] then [] else [line]
  | c :: rest => if c = '\n' then line :: lfLinesFrom [] rest else lfLinesFrom (line ++ [c]) rest

def lfLines (text : List Char) : List (List Char) := lfLinesFrom [] text

/-! ## Words -/

def wordsFrom (word : List Char) : List Char → List (List Char)
  | [] => if word = [] then [] else [word]
  | c :: rest =>
    if isSpace c then
      if word = [] then wordsFrom [] rest else word :: wordsFrom [] rest
    else wordsFrom (word ++ [c]) rest

/-- `str.split` without a separator. -/
def words (text : List Char) : List (List Char) := wordsFrom [] text

theorem wordsFrom_concat_space (word text : List Char) {c : Char} (h : isSpace c = true) :
    wordsFrom word (text ++ [c]) = wordsFrom word text := by
  induction text generalizing word with
  | nil => by_cases none : word = [] <;> simp [wordsFrom, h, none]
  | cons d text ih => simp only [List.cons_append, wordsFrom, ih]

theorem words_concat_space (text : List Char) {c : Char} (h : isSpace c = true) :
    words (text ++ [c]) = words text := wordsFrom_concat_space [] text h

/-! ## UTF-8 -/

def continues (b : UInt8) : Bool := 0x80 ≤ b && b ≤ 0xbf

def sixBits (b : UInt8) : Nat := b.toNat - 0x80

/-- Strict UTF-8: the shortest form, no surrogates, nothing after U+10FFFF. -/
def decodeUtf8 : List UInt8 → Option (List Char)
  | [] => some []
  | a :: rest =>
    if a < 0x80 then (decodeUtf8 rest).map (Char.ofNat a.toNat :: ·)
    else
      match rest with
      | [] => none
      | b :: rest =>
        if 0xc2 ≤ a && a ≤ 0xdf && continues b then
          (decodeUtf8 rest).map (Char.ofNat ((a.toNat - 0xc0) * 64 + sixBits b) :: ·)
        else
          match rest with
          | [] => none
          | c :: rest =>
            if 0xe0 ≤ a && a ≤ 0xef && continues b && continues c && (a != 0xe0 || 0xa0 ≤ b) &&
                (a != 0xed || b ≤ 0x9f) then
              (decodeUtf8 rest).map
                (Char.ofNat ((a.toNat - 0xe0) * 4096 + sixBits b * 64 + sixBits c) :: ·)
            else
              match rest with
              | [] => none
              | d :: rest =>
                if 0xf0 ≤ a && a ≤ 0xf4 && continues b && continues c && continues d &&
                    (a != 0xf0 || 0x90 ≤ b) && (a != 0xf4 || b ≤ 0x8f) then
                  (decodeUtf8 rest).map (Char.ofNat ((a.toNat - 0xf0) * 262144 + sixBits b * 4096 +
                    sixBits c * 64 + sixBits d) :: ·)
                else none

theorem utf8Size_ofNat {n : Nat} (valid : n.isValidChar) :
    (Char.ofNat n).utf8Size = if n ≤ 0x7f then 1 else if n ≤ 0x7ff then 2 else if n ≤ 0xffff then 3 else 4 := by
  have same : (Char.ofNat n).val.toNat = n := by
    rw [Char.ofNat, dif_pos valid]
    rfl
  simp only [Char.utf8Size, UInt32.le_iff_toNat_le, same]
  rfl

theorem utf8Size_one {n : Nat} (h : n < 0x80) : (Char.ofNat n).utf8Size = 1 := by
  rw [utf8Size_ofNat (.inl (by omega)), if_pos (by omega)]

theorem utf8Size_two {a b : Nat} (h : (0xc2 ≤ a ∧ a ≤ 0xdf) ∧ 0x80 ≤ b ∧ b ≤ 0xbf) :
    (Char.ofNat ((a - 0xc0) * 64 + (b - 0x80))).utf8Size = 2 := by
  have low : 0x80 ≤ (a - 0xc0) * 64 + (b - 0x80) := by omega
  have high : (a - 0xc0) * 64 + (b - 0x80) < 0x800 := by omega
  generalize (a - 0xc0) * 64 + (b - 0x80) = n at low high
  rw [utf8Size_ofNat (.inl (by omega)), if_neg (by omega), if_pos (by omega)]

theorem utf8Size_three {a b c : Nat}
    (h : (((((0xe0 ≤ a ∧ a ≤ 0xef) ∧ 0x80 ≤ b ∧ b ≤ 0xbf) ∧ 0x80 ≤ c ∧ c ≤ 0xbf) ∧ (¬a = 0xe0 ∨ 0xa0 ≤ b)) ∧
      (¬a = 0xed ∨ b ≤ 0x9f))) :
    (Char.ofNat ((a - 0xe0) * 4096 + (b - 0x80) * 64 + (c - 0x80))).utf8Size = 3 := by
  have low : 0x800 ≤ (a - 0xe0) * 4096 + (b - 0x80) * 64 + (c - 0x80) := by omega
  have high : (a - 0xe0) * 4096 + (b - 0x80) * 64 + (c - 0x80) < 0x10000 := by omega
  have scalar : (a - 0xe0) * 4096 + (b - 0x80) * 64 + (c - 0x80) < 0xd800 ∨
      0xdfff < (a - 0xe0) * 4096 + (b - 0x80) * 64 + (c - 0x80) := by omega
  generalize (a - 0xe0) * 4096 + (b - 0x80) * 64 + (c - 0x80) = n at low high scalar
  have valid : n.isValidChar := scalar.imp id fun above => ⟨above, by omega⟩
  rw [utf8Size_ofNat valid, if_neg (by omega), if_neg (by omega), if_pos (by omega)]

theorem utf8Size_four {a b c d : Nat}
    (h : (((((((0xf0 ≤ a ∧ a ≤ 0xf4) ∧ 0x80 ≤ b ∧ b ≤ 0xbf) ∧ 0x80 ≤ c ∧ c ≤ 0xbf) ∧ 0x80 ≤ d ∧ d ≤ 0xbf) ∧
      (¬a = 0xf0 ∨ 0x90 ≤ b)) ∧ (¬a = 0xf4 ∨ b ≤ 0x8f)))) :
    (Char.ofNat ((a - 0xf0) * 262144 + (b - 0x80) * 4096 + (c - 0x80) * 64 + (d - 0x80))).utf8Size = 4 := by
  have low : 0x10000 ≤ (a - 0xf0) * 262144 + (b - 0x80) * 4096 + (c - 0x80) * 64 + (d - 0x80) := by omega
  have high : (a - 0xf0) * 262144 + (b - 0x80) * 4096 + (c - 0x80) * 64 + (d - 0x80) < 0x110000 := by omega
  generalize (a - 0xf0) * 262144 + (b - 0x80) * 4096 + (c - 0x80) * 64 + (d - 0x80) = n at low high
  rw [utf8Size_ofNat (.inr ⟨by omega, high⟩), if_neg (by omega), if_neg (by omega), if_neg (by omega)]

theorem continues_iff {b : UInt8} : continues b = true ↔ 0x80 ≤ b.toNat ∧ b.toNat ≤ 0xbf := by
  simp [continues, UInt8.le_iff_toNat_le]

/-- A text takes the bytes of its characters. -/
theorem decodeUtf8_length {data : List UInt8} {text : List Char} (h : decodeUtf8 data = some text) :
    data.length = (text.map Char.utf8Size).sum := by
  fun_induction decodeUtf8 data generalizing text with
  | case1 =>
    cases h
    rfl
  | case2 a rest one ih =>
    obtain ⟨others, run, rfl⟩ := Option.map_eq_some_iff.mp h
    rw [UInt8.lt_iff_toNat_lt] at one
    simp only [List.length_cons, ih run, List.map_cons, List.sum_cons, utf8Size_one one]
    exact Nat.add_comm _ 1
  | case4 a _ b rest two ih =>
    obtain ⟨others, run, rfl⟩ := Option.map_eq_some_iff.mp h
    simp only [Bool.and_eq_true, decide_eq_true_eq, UInt8.le_iff_toNat_le, continues_iff,
      UInt8.reduceToNat] at two
    have size : (Char.ofNat ((a.toNat - 0xc0) * 64 + sixBits b)).utf8Size = 2 := utf8Size_two two
    rw [List.map_cons, List.sum_cons, size, List.length_cons, List.length_cons, ih run]
    exact Nat.add_comm _ 2
  | case6 a _ b _ c rest three ih =>
    obtain ⟨others, run, rfl⟩ := Option.map_eq_some_iff.mp h
    simp only [Bool.and_eq_true, Bool.or_eq_true, bne_iff_ne, ne_eq, ← UInt8.toNat_inj, decide_eq_true_eq,
      UInt8.le_iff_toNat_le, continues_iff, UInt8.reduceToNat] at three
    have size : (Char.ofNat ((a.toNat - 0xe0) * 4096 + sixBits b * 64 + sixBits c)).utf8Size = 3 := utf8Size_three three
    rw [List.map_cons, List.sum_cons, size, List.length_cons, List.length_cons, List.length_cons, ih run]
    exact Nat.add_comm _ 3
  | case8 a _ b _ c _ d rest four ih =>
    obtain ⟨others, run, rfl⟩ := Option.map_eq_some_iff.mp h
    simp only [Bool.and_eq_true, Bool.or_eq_true, bne_iff_ne, ne_eq, ← UInt8.toNat_inj, decide_eq_true_eq,
      UInt8.le_iff_toNat_le, continues_iff, UInt8.reduceToNat] at four
    have size : (Char.ofNat ((a.toNat - 0xf0) * 262144 + sixBits b * 4096 + sixBits c * 64 + sixBits d)).utf8Size = 4 := utf8Size_four four
    rw [List.map_cons, List.sum_cons, size, List.length_cons, List.length_cons, List.length_cons, List.length_cons, ih run]
    exact Nat.add_comm _ 4
  | case3 | case5 | case7 | case9 => cases h

end Text

end CertRenewer
