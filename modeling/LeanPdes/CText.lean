import Mathlib.Data.List.DropRight
import Mathlib.Data.List.TakeWhile
import Mathlib.Tactic

/-! Text as the string functions of C see it: a pointer is the text from it on, up to the terminating
zero. `strstr` and `strchr` find the next occurrence, `printf` writes decimal numbers and `sscanf`
reads them back. A search passes over a text that clashes with the pattern at every place, whatever
follows it. -/

namespace CText

def strstr (pattern : List Char) : List Char → Option (List Char)
  | [] => if pattern.isEmpty then some [] else none
  | c :: text => if pattern.isPrefixOf (c :: text) then some (c :: text) else strstr pattern text

def strchr (c : Char) : List Char → Option (List Char)
  | [] => none
  | d :: text => if d = c then some (d :: text) else strchr c text

/-- The two texts differ at a place that both have. -/
def clash : List Char → List Char → Bool
  | p :: pattern, c :: text => p != c || clash pattern text
  | _, _ => false

/-- The pattern starts nowhere in the text, whatever follows the text. -/
def absent (pattern : List Char) : List Char → Bool
  | [] => true
  | c :: text => clash pattern (c :: text) && absent pattern text

theorem not_isPrefixOf_of_clash {pattern text : List Char} (h : clash pattern text = true)
    (rest : List Char) : pattern.isPrefixOf (text ++ rest) = false := by
  induction pattern generalizing text with
  | nil => cases text <;> cases h
  | cons p pattern ih =>
      cases text with
      | nil => cases h
      | cons c text =>
          rw [clash, Bool.or_eq_true, bne_iff_ne] at h
          rw [List.cons_append, List.isPrefixOf, Bool.and_eq_false_iff]
          rcases h with hne | hclash
          · exact Or.inl (beq_false_of_ne hne)
          · exact Or.inr (ih hclash)

theorem clash_append {pattern text : List Char} (h : clash pattern text = true)
    (rest : List Char) : clash pattern (text ++ rest) = true := by
  induction pattern generalizing text with
  | nil => cases text <;> cases h
  | cons p pattern ih =>
      cases text with
      | nil => cases h
      | cons c text =>
          rw [clash, Bool.or_eq_true] at h
          rw [List.cons_append, clash, Bool.or_eq_true]
          exact h.imp_right ih

theorem absent_append {pattern left right : List Char} (hleft : absent pattern left = true)
    (hright : absent pattern right = true) : absent pattern (left ++ right) = true := by
  induction left with
  | nil => exact hright
  | cons c left ih =>
      rw [absent, Bool.and_eq_true] at hleft
      rw [List.cons_append, absent, Bool.and_eq_true]
      exact ⟨clash_append hleft.1 right, ih hleft.2⟩

/-- A text without the pattern's first character does not hold the pattern. -/
theorem absent_of_not_mem {p : Char} {pattern text : List Char} (h : p ∉ text) :
    absent (p :: pattern) text = true := by
  induction text with
  | nil => rfl
  | cons c text ih =>
      rw [List.mem_cons, not_or] at h
      rw [absent, clash, ih h.2, Bool.and_true, Bool.or_eq_true]
      exact Or.inl (bne_iff_ne.mpr h.1)

/-- The search passes over a text without the pattern. -/
theorem strstr_skip {pattern text : List Char} (h : absent pattern text = true)
    (rest : List Char) : strstr pattern (text ++ rest) = strstr pattern rest := by
  induction text with
  | nil => rfl
  | cons c text ih =>
      rw [absent, Bool.and_eq_true] at h
      have hfirst := not_isPrefixOf_of_clash h.1 rest
      rw [List.cons_append] at hfirst ⊢
      rw [strstr, hfirst, if_neg Bool.false_ne_true, ih h.2]

theorem strstr_self {pattern : List Char} (h : pattern ≠ []) (rest : List Char) :
    strstr pattern (pattern ++ rest) = some (pattern ++ rest) := by
  cases pattern with
  | nil => exact absurd rfl h
  | cons p pattern =>
      have hprefix : (p :: pattern).isPrefixOf (p :: (pattern ++ rest)) = true :=
        List.isPrefixOf_iff_prefix.mpr (List.prefix_append (p :: pattern) rest)
      rw [List.cons_append, strstr, hprefix, if_pos rfl]

/-- A text that ends without the pattern. -/
theorem strstr_none {pattern text : List Char} (hne : pattern ≠ []) (h : absent pattern text = true) :
    strstr pattern text = none := by
  have hskip := strstr_skip h []
  rw [List.append_nil] at hskip
  rw [hskip, strstr, if_neg]
  simpa using hne

theorem strchr_skip {c : Char} {text : List Char} (h : c ∉ text) (rest : List Char) :
    strchr c (text ++ rest) = strchr c rest := by
  induction text with
  | nil => rfl
  | cons d text ih =>
      rw [List.mem_cons, not_or] at h
      rw [List.cons_append, strchr, if_neg (Ne.symm h.1), ih h.2]

theorem length_strstr_le {pattern text found : List Char} (h : strstr pattern text = some found) :
    found.length ≤ text.length := by
  induction text with
  | nil =>
      rw [strstr] at h
      split_ifs at h
      cases h
      exact le_rfl
  | cons c text ih =>
      rw [strstr] at h
      split_ifs at h
      · cases h
        exact le_rfl
      · exact (ih h).trans (Nat.le_succ _)

theorem prefix_of_strstr {pattern text found : List Char} (h : strstr pattern text = some found) :
    pattern <+: found := by
  induction text with
  | nil =>
      rw [strstr] at h
      split_ifs at h with hempty
      rw [List.isEmpty_iff.mp hempty]
      exact List.nil_prefix
  | cons c text ih =>
      rw [strstr] at h
      split_ifs at h with hprefix
      · cases h
        exact List.isPrefixOf_iff_prefix.mp hprefix
      · exact ih h

theorem length_strchr_le {c : Char} {text found : List Char} (h : strchr c text = some found) :
    found.length ≤ text.length := by
  induction text with
  | nil => cases h
  | cons d text ih =>
      rw [strchr] at h
      split_ifs at h
      · cases h
        exact le_rfl
      · exact (ih h).trans (Nat.le_succ _)

/-! ### Decimal numbers -/

/-- `%u` and `%lu`. -/
def printUnsigned (n : Nat) : List Char := Nat.toDigits 10 n

/-- `%ld`. -/
def printSigned : Int → List Char
  | .ofNat n => printUnsigned n
  | .negSucc n => '-' :: printUnsigned (n + 1)

def isSpace (c : Char) : Bool := [' ', '\t', '\n', '\x0b', '\x0c', '\r'].contains c

/-- The literal part of a format of `sscanf`: a space in it stands for any white space. -/
def scanLiteral : List Char → List Char → Option (List Char)
  | [], text => some text
  | f :: format, text =>
      if isSpace f then scanLiteral format (text.dropWhile isSpace)
      else
        match text with
        | [] => none
        | c :: text => if c = f then scanLiteral format text else none

/-- Whether a number is negative, and the text after its sign. -/
def splitSign : List Char → Bool × List Char
  | '-' :: text => (true, text)
  | '+' :: text => (false, text)
  | text => (false, text)

/-- The sign and the digits of a number, which white space may precede. -/
def scanNumber (text : List Char) : Option (Bool × Nat) :=
  let (negative, text) := splitSign (text.dropWhile isSpace)
  let digits := text.takeWhile Char.isDigit
  if digits.isEmpty then none else some (negative, Nat.ofDigitChars 10 digits 0)

/-- `%ld` into an `int64_t`: a number out of its range gives the nearest bound. -/
def scanInt64 (text : List Char) : Option Int :=
  (scanNumber text).map fun (negative, n) =>
    if negative then max (-(n : Int)) (-2 ^ 63) else min (n : Int) (2 ^ 63 - 1)

/-- `%lu` into a `uint64_t`: a number out of range gives the upper bound, and a sign negates modulo
`2 ^ 64`. -/
def scanUInt64 (text : List Char) : Option Nat :=
  (scanNumber text).map fun (negative, n) =>
    if 2 ^ 64 ≤ n then 2 ^ 64 - 1 else if negative then (2 ^ 64 - n) % 2 ^ 64 else n

/-- `%u` into an `unsigned int`: the low bits of what `%lu` reads. -/
def scanUInt32 (text : List Char) : Option Nat := (scanUInt64 text).map (· % 2 ^ 32)

/-- The text does not go on with a digit. -/
def EndsNumber (text : List Char) : Prop := ∀ c ∈ text.head?, c.isDigit = false

theorem isDigit_of_mem_printUnsigned {n : Nat} {c : Char} (h : c ∈ printUnsigned n) :
    c.isDigit = true :=
  Nat.isDigit_of_mem_toDigits (by decide) (by decide) h

theorem ne_of_isDigit {c d : Char} (hc : c.isDigit = true) (hd : d.isDigit = false) : c ≠ d := by
  intro heq
  rw [heq, hd] at hc
  cases hc

theorem isSpace_of_isDigit {c : Char} (h : c.isDigit = true) : isSpace c = false := by
  have hne (d : Char) (hd : d.isDigit = false) : ¬c = d := ne_of_isDigit h hd
  simp [isSpace, hne]

theorem takeWhile_isDigit (n : Nat) {rest : List Char} (h : EndsNumber rest) :
    (printUnsigned n ++ rest).takeWhile Char.isDigit = printUnsigned n := by
  have hrest : rest.takeWhile Char.isDigit = [] := by
    cases rest with
    | nil => rfl
    | cons c rest =>
        have hc : c.isDigit = false := h c rfl
        rw [List.takeWhile_cons, hc, if_neg Bool.false_ne_true]
  rw [List.takeWhile_append_of_pos fun c hc => isDigit_of_mem_printUnsigned hc, hrest,
    List.append_nil]

theorem printUnsigned_eq_cons (n : Nat) :
    ∃ c text, printUnsigned n = c :: text ∧ c.isDigit = true := by
  cases h : printUnsigned n with
  | nil => exact absurd h Nat.toDigits_ne_nil
  | cons c text =>
      refine ⟨c, text, rfl, isDigit_of_mem_printUnsigned (n := n) ?_⟩
      rw [h]
      exact List.mem_cons_self

theorem digits_printUnsigned (n : Nat) {rest : List Char} (h : EndsNumber rest) :
    ((printUnsigned n ++ rest).takeWhile Char.isDigit).isEmpty = false ∧
      Nat.ofDigitChars 10 ((printUnsigned n ++ rest).takeWhile Char.isDigit) 0 = n := by
  rw [takeWhile_isDigit n h]
  refine ⟨?_, Nat.ofDigitChars_ten_toDigits⟩
  obtain ⟨c, text, htext, _⟩ := printUnsigned_eq_cons n
  rw [htext]
  rfl

theorem scanNumber_printUnsigned (n : Nat) {rest : List Char} (h : EndsNumber rest) :
    scanNumber (printUnsigned n ++ rest) = some (false, n) := by
  obtain ⟨hne, hvalue⟩ := digits_printUnsigned n h
  obtain ⟨c, text, htext, hdigit⟩ := printUnsigned_eq_cons n
  rw [htext, List.cons_append] at hne hvalue ⊢
  have hdrop : (c :: (text ++ rest)).dropWhile isSpace = c :: (text ++ rest) := by
    rw [List.dropWhile_cons, isSpace_of_isDigit hdigit, if_neg Bool.false_ne_true]
  have hsign : splitSign (c :: (text ++ rest)) = (false, c :: (text ++ rest)) := by
    rw [splitSign]
    · exact fun _ heq => absurd (List.cons.inj heq).1 (ne_of_isDigit hdigit (by decide))
    · exact fun _ heq => absurd (List.cons.inj heq).1 (ne_of_isDigit hdigit (by decide))
  simp only [scanNumber, hdrop, hsign, hne, hvalue, Bool.false_eq_true, if_false]

theorem scanNumber_minus (n : Nat) {rest : List Char} (h : EndsNumber rest) :
    scanNumber ('-' :: printUnsigned n ++ rest) = some (true, n) := by
  obtain ⟨hne, hvalue⟩ := digits_printUnsigned n h
  have hdrop : ('-' :: (printUnsigned n ++ rest)).dropWhile isSpace =
      '-' :: (printUnsigned n ++ rest) := by
    rw [List.dropWhile_cons, if_neg (by decide)]
  have hsign : splitSign ('-' :: (printUnsigned n ++ rest)) = (true, printUnsigned n ++ rest) := rfl
  simp only [List.cons_append, scanNumber, hdrop, hsign, hne, hvalue, Bool.false_eq_true, if_false]

theorem scanUInt64_print {n : Nat} (hn : n < 2 ^ 64) {rest : List Char} (h : EndsNumber rest) :
    scanUInt64 (printUnsigned n ++ rest) = some n := by
  have hle : ¬2 ^ 64 ≤ n := by omega
  simp only [scanUInt64, scanNumber_printUnsigned n h, Option.map_some, if_neg hle,
    Bool.false_eq_true, if_false]

theorem scanUInt32_print {n : Nat} (hn : n < 2 ^ 32) {rest : List Char} (h : EndsNumber rest) :
    scanUInt32 (printUnsigned n ++ rest) = some n := by
  rw [scanUInt32, scanUInt64_print (by omega) h, Option.map_some, Nat.mod_eq_of_lt hn]

theorem scanInt64_print {x : Int} (hlow : -2 ^ 63 ≤ x) (hhigh : x < 2 ^ 63) {rest : List Char}
    (h : EndsNumber rest) : scanInt64 (printSigned x ++ rest) = some x := by
  cases x with
  | ofNat n =>
      have hle : (n : Int) ≤ 2 ^ 63 - 1 := by
        rw [Int.ofNat_eq_natCast] at hhigh
        omega
      simp only [printSigned, scanInt64, scanNumber_printUnsigned n h, Option.map_some,
        Bool.false_eq_true, if_false, min_eq_left hle]
      rfl
  | negSucc n =>
      have hle : (-2 ^ 63 : Int) ≤ -((n + 1 : Nat) : Int) := by
        rw [Int.negSucc_eq] at hlow
        omega
      simp only [printSigned, scanInt64, scanNumber_minus (n + 1) h, Option.map_some, if_true,
        max_eq_left hle]
      rfl

/-- A key without a space in it, and the space before its value. -/
theorem scanLiteral_key {key : List Char} (h : ∀ c ∈ key, isSpace c = false) (text : List Char) :
    scanLiteral (key ++ [' ']) (key ++ ' ' :: text) = some (text.dropWhile isSpace) := by
  induction key with
  | nil => rfl
  | cons c key ih =>
      have hc : isSpace c = false := h c List.mem_cons_self
      rw [List.cons_append, List.cons_append, scanLiteral, hc, if_neg Bool.false_ne_true, if_pos rfl]
      exact ih fun d hd => h d (List.mem_cons_of_mem c hd)

/-- White space before a number does not matter. -/
theorem scanNumber_dropWhile (text : List Char) :
    scanNumber (text.dropWhile isSpace) = scanNumber text := by
  rw [scanNumber, scanNumber, List.dropWhile_idempotent]

theorem scanInt64_dropWhile (text : List Char) :
    scanInt64 (text.dropWhile isSpace) = scanInt64 text := by
  rw [scanInt64, scanInt64, scanNumber_dropWhile]

theorem scanUInt64_dropWhile (text : List Char) :
    scanUInt64 (text.dropWhile isSpace) = scanUInt64 text := by
  rw [scanUInt64, scanUInt64, scanNumber_dropWhile]

theorem scanUInt32_dropWhile (text : List Char) :
    scanUInt32 (text.dropWhile isSpace) = scanUInt32 text := by
  rw [scanUInt32, scanUInt32, scanUInt64_dropWhile]

theorem not_mem_printUnsigned {c : Char} (h : c.isDigit = false) (n : Nat) : c ∉ printUnsigned n :=
  fun hmem => ne_of_isDigit (isDigit_of_mem_printUnsigned hmem) h rfl

theorem not_mem_printSigned {c : Char} (h : c.isDigit = false) (hminus : c ≠ '-') (x : Int) :
    c ∉ printSigned x := by
  cases x with
  | ofNat n => exact not_mem_printUnsigned h n
  | negSucc n =>
      rw [printSigned, List.mem_cons, not_or]
      exact ⟨hminus, not_mem_printUnsigned h (n + 1)⟩

end CText
