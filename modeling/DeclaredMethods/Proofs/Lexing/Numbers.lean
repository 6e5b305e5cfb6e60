import DeclaredMethods.Proofs.Lexing.Partition
import Mathlib.Data.Nat.Digits.Defs

/-!
# The whole numbers of a text

A whole number is written with the digits of one of four bases, behind the mark of the base.
Underscores may stand behind the first digit and count for nothing. The value of a digit is its
place in the list of all digits, and the value of a number is that of its digits in its base.

At the head of a text a whole number is read if it is the longest number there. It becomes a token
with its value if that is less than `2 ^ 63`, and an error over the whole number otherwise. Nothing
else becomes such a token or such an error.
-/

namespace DeclaredMethods.Source

inductive Base where
  | decimal
  | hexadecimal
  | binary
  | octal
deriving DecidableEq

namespace Base

/-- What stands in front of the digits. -/
def mark : Base → List Char
  | decimal => []
  | hexadecimal => ['0', 'x']
  | binary => ['0', 'b']
  | octal => ['0', 'o']

def radix : Base → Nat
  | decimal => 10
  | hexadecimal => 16
  | binary => 2
  | octal => 8

/-- The digits of all bases, the smallest first. -/
def smallDigits : List Char :=
  ['0', '1', '2', '3', '4', '5', '6', '7', '8', '9', 'a', 'b', 'c', 'd', 'e', 'f']

def capitalDigits : List Char :=
  ['0', '1', '2', '3', '4', '5', '6', '7', '8', '9', 'A', 'B', 'C', 'D', 'E', 'F']

def place? (c : Char) : Option Nat :=
  (smallDigits.idxOf? c).or (capitalDigits.idxOf? c)

def digit? (base : Base) (c : Char) : Option Nat :=
  (place? c).filter (· < base.radix)

def isDigit (base : Base) (c : Char) : Bool :=
  (base.digit? c).isSome

/-- The number that digits stand for in a base, the last of them counting once. -/
def value (base : Base) (digits : List Char) : Nat :=
  Nat.ofDigits base.radix (digits.filterMap base.digit?).reverse

/-- Whether a character can stand behind the first digit. -/
def continues (base : Base) (c : Char) : Bool :=
  base.isDigit c || c == '_'

/-- A digit, and digits and underscores behind it. -/
inductive Run (base : Base) : List Char → Prop where
  | intro {first : Char} {digits : List Char} (hfirst : base.isDigit first = true)
      (hdigits : ∀ c ∈ digits, base.continues c = true) : Run base (first :: digits)

end Base

/-- A text that is a whole number in a base, and its value. -/
inductive Numeral (base : Base) : List Char → Nat → Prop where
  | intro {digits : List Char} (hdigits : base.Run digits) :
      Numeral base (base.mark ++ digits) (base.value digits)

/-- A text that is a whole number or a number with a fraction. -/
inductive IsNumber : List Char → Prop where
  | whole {base : Base} {text : List Char} {value : Nat} (h : Numeral base text value) :
      IsNumber text
  | fractional {whole fraction : List Char} (hwhole : Base.decimal.Run whole)
      (hfraction : Base.decimal.Run fraction) : IsNumber (whole ++ '.' :: fraction)

/-- A whole number at the head of a text, where no longer number stands. -/
structure LongestNumeral (base : Base) (piece : List Char) (value : Nat) (text : List Char) :
    Prop where
  numeral : Numeral base piece value
  starts : piece <+: text
  longest : ∀ longer, longer <+: text → IsNumber longer → longer.length ≤ piece.length

section Digits

/-- A fact about characters, checked for the first ones and shown for the others. -/
@[elab_as_elim]
theorem char_cases {motive : Char → Prop} (low : ∀ code < 128, motive (Char.ofNat code))
    (high : ∀ c : Char, 128 ≤ c.toNat → motive c) (c : Char) : motive c := by
  by_cases h : c.toNat < 128
  · have hc := low c.toNat h
    rwa [Char.ofNat_toNat] at hc
  · exact high c (Nat.le_of_not_lt h)

/-- Only the first characters are digits. -/
theorem Base.place?_eq_none {c : Char} (h : 128 ≤ c.toNat) : place? c = none := by
  have hall : (smallDigits ++ capitalDigits).all (fun d ↦ d.toNat < 128) = true := rfl
  have hnot : c ∉ smallDigits ++ capitalDigits := fun hmem ↦
    Nat.not_lt.2 h (of_decide_eq_true (List.all_eq_true.1 hall c hmem))
  obtain ⟨hsmall, hcapital⟩ := not_or.1 (mt List.mem_append.2 hnot)
  rw [place?, List.idxOf?_eq_none_iff.2 hsmall, List.idxOf?_eq_none_iff.2 hcapital]
  rfl

/-- No base has digits outside of ASCII. -/
theorem Base.isDigit_eq_false {c : Char} (base : Base) (h : 128 ≤ c.toNat) :
    base.isDigit c = false := by
  rw [isDigit, digit?, place?_eq_none h]
  rfl

theorem not_le_of_high {c : Char} (h : 128 ≤ c.toNat) {d : Char} (hd : d.toNat < 128) :
    ¬c ≤ d :=
  fun hle ↦ Nat.not_le.2 (Nat.lt_of_lt_of_le hd h) hle

theorem isDigit_decimal : Base.decimal.isDigit = Char.isDigit := by
  funext c
  induction c using char_cases with
  | low code hcode => revert code; decide +kernel
  | high c h =>
    have hnot : ¬c ≤ '9' := not_le_of_high h (by decide)
    rw [Base.decimal.isDigit_eq_false h, Char.isDigit]
    exact (Bool.and_eq_false_iff.2 (.inr (decide_eq_false hnot))).symm

theorem isDigit_hexadecimal : Base.hexadecimal.isDigit = isHexDigit := by
  funext c
  induction c using char_cases with
  | low code hcode => revert code; decide +kernel
  | high c h =>
    have hsmall : ¬c ≤ 'f' := not_le_of_high h (by decide)
    have hcapital : ¬c ≤ 'F' := not_le_of_high h (by decide)
    rw [isHexDigit, ← isDigit_decimal, Base.isDigit_eq_false _ h, Base.isDigit_eq_false _ h]
    simp [hsmall, hcapital]

theorem isDigit_binary : Base.binary.isDigit = fun c ↦ c == '0' || c == '1' := by
  funext c
  induction c using char_cases with
  | low code hcode => revert code; decide +kernel
  | high c h =>
    have hzero : c ≠ '0' := fun heq ↦ absurd (heq ▸ h) (by decide)
    have hone : c ≠ '1' := fun heq ↦ absurd (heq ▸ h) (by decide)
    rw [Base.isDigit_eq_false _ h]
    simp [hzero, hone]

theorem isDigit_octal : Base.octal.isDigit = fun c ↦ '0' ≤ c && c ≤ '7' := by
  funext c
  induction c using char_cases with
  | low code hcode => revert code; decide +kernel
  | high c h =>
    have hnot : ¬c ≤ '7' := not_le_of_high h (by decide)
    rw [Base.isDigit_eq_false _ h]
    simp [hnot]

/-- The table of digits agrees with the values that the lexer computes. -/
theorem digitValue_of_digit? {base : Base} {c : Char} {value : Nat}
    (h : base.digit? c = some value) : Text.digitValue c = value := by
  have hvalue : (Base.place? c).all (· == Text.digitValue c) = true := by
    clear h
    induction c using char_cases with
    | low code hcode => revert code; decide +kernel
    | high c h => rw [Base.place?_eq_none h]; rfl
  rw [(Option.filter_eq_some_iff.1 h).1] at hvalue
  exact (eq_of_beq hvalue).symm

end Digits

section Runs

variable {base : Base} {digits text : List Char}

theorem digit?_underscore (base : Base) : base.digit? '_' = none := by
  cases base <;> rfl

/-- Digits are added up from the left. -/
theorem foldl_digits (digits : List Char) (hdigits : ∀ c ∈ digits, base.continues c = true)
    (start : Nat) :
    (digits.filter (· != '_')).foldl (fun value c ↦ value * base.radix + Text.digitValue c) start =
      (digits.filterMap base.digit?).foldl (fun value d ↦ value * base.radix + d) start := by
  induction digits generalizing start with
  | nil => rfl
  | cons c digits ih =>
    obtain ⟨hc, hrest⟩ := List.forall_mem_cons.1 hdigits
    by_cases hunder : c = '_'
    · subst hunder
      rw [List.filterMap_cons_none (digit?_underscore base)]
      exact ih hrest start
    · have hdigit : base.isDigit c = true :=
        (Bool.or_eq_true_iff.1 hc).resolve_right fun h ↦ hunder (eq_of_beq h)
      obtain ⟨value, hvalue⟩ := Option.isSome_iff_exists.1 hdigit
      rw [List.filterMap_cons_some hvalue, List.filter_cons_of_pos (by simpa using hunder),
        List.foldl_cons, List.foldl_cons, digitValue_of_digit? hvalue]
      exact ih hrest _

theorem Base.Run.continues (h : base.Run digits) : ∀ c ∈ digits, base.continues c = true := by
  cases h with
  | intro hfirst hdigits =>
    exact List.forall_mem_cons.2 ⟨Bool.or_eq_true_iff.2 (.inl hfirst), hdigits⟩

/-- The value that the lexer computes for a run of digits is the value of the run. -/
theorem digitsValue_eq_value (h : base.Run digits) :
    Text.digitsValue base.radix digits = base.value digits := by
  rw [Text.digitsValue, foldl_digits digits h.continues, Base.value, Nat.ofDigits_eq_foldr,
    List.foldr_reverse]
  simp only [Nat.cast_id, Nat.mul_comm, Nat.add_comm]

example : Base.hexadecimal.value ['f', '_', 'F'] = 255 := by decide

structure LongestRun (base : Base) (digits text : List Char) : Prop where
  run : base.Run digits
  starts : digits <+: text
  longest : ∀ longer, base.Run longer → longer <+: text → longer.length ≤ digits.length

/-- Digits are read as long as there are some. -/
theorem longestRun_of_basedDigits? (h : basedDigits? base.isDigit text = some digits) :
    LongestRun base digits text := by
  cases text with
  | nil => cases h
  | cons first text =>
    rw [basedDigits?, Option.ite_none_right_eq_some] at h
    obtain ⟨hfirst, hdigits⟩ := h
    obtain rfl : first :: text.takeWhile base.continues = digits := Option.some.inj hdigits
    refine ⟨.intro hfirst fun c hc ↦ List.mem_takeWhile_imp hc,
      List.cons_prefix_cons.2 ⟨rfl, List.takeWhile_prefix _⟩, fun longer hrun hlonger ↦ ?_⟩
    cases hrun with
    | intro hother hmore =>
      obtain ⟨-, rest, rfl⟩ := List.cons_prefix_cons.1 hlonger
      rw [List.takeWhile_append_of_pos hmore]
      simp

/-- Where the lexer finds no digits there is no run. -/
theorem not_prefix_of_basedDigits? (h : basedDigits? base.isDigit text = none)
    (hrun : base.Run digits) : ¬digits <+: text := by
  rintro ⟨rest, rfl⟩
  cases hrun with
  | intro hfirst hdigits =>
    rw [List.cons_append, basedDigits?, if_pos hfirst] at h
    cases h

end Runs

/-! ## Numbers at the head of a text -/

section Numbers

variable {base other : Base} {first : Char} {value value' : Nat}
  {text rest rest' front digits whole piece piece' : List Char}

theorem Base.Run.length_pos (h : base.Run digits) : 0 < digits.length := by
  cases h with
  | intro hfirst hdigits => exact Nat.succ_pos _

/-- A run of digits goes no further than to a character that cannot stand in it. -/
theorem Base.Run.length_le (hrun : base.Run digits) {c : Char} (hc : base.continues c = false)
    (h : digits <+: front ++ c :: rest) : digits.length ≤ front.length := by
  have hnot : c ∉ digits := fun hmem ↦ Bool.eq_false_iff.1 hc (hrun.continues c hmem)
  -- A longer run would go over the character.
  have hfront : front ++ [c] <+: front ++ c :: rest := ⟨rest, by simp⟩
  rcases List.prefix_or_prefix_of_prefix h hfront with hshort | hlong
  · rcases List.prefix_concat_iff.1 hshort with rfl | hshort
    · exact absurd List.mem_concat_self hnot
    · exact hshort.length_le
  · exact absurd (hlong.subset List.mem_concat_self) hnot

/-- A number with a base mark is read with the digits of the base. -/
theorem basedNumber?_of_mark (hbase : base ≠ .decimal) (h : '0' :: text = base.mark ++ rest) :
    basedNumber? text = (basedDigits? base.isDigit rest).map fun digits ↦
      integerLexeme (base.mark ++ digits).length (Text.digitsValue base.radix digits) := by
  cases base with
  | decimal => exact absurd rfl hbase
  | hexadecimal => cases h; rw [isDigit_hexadecimal]; rfl
  | binary => cases h; rw [isDigit_binary]; rfl
  | octal => cases h; rw [isDigit_octal]; rfl

/-- A number that is not decimal starts with the mark of its base. -/
theorem exists_mark_of_basedNumber? {lexeme : Lexeme} (h : basedNumber? text = some lexeme) :
    ∃ base rest, base ≠ Base.decimal ∧ '0' :: text = base.mark ++ rest := by
  unfold basedNumber? at h
  split at h
  · exact ⟨.hexadecimal, _, by decide, rfl⟩
  · exact ⟨.binary, _, by decide, rfl⟩
  · exact ⟨.octal, _, by decide, rfl⟩
  · cases h

/-- A base mark is a zero and a letter. -/
theorem mark_eq (hbase : base ≠ .decimal) :
    ∃ letter, base.mark = ['0', letter] ∧ letter ≠ '.' ∧ Base.decimal.continues letter = false := by
  cases base with
  | decimal => exact absurd rfl hbase
  | hexadecimal => exact ⟨'x', rfl, by decide, rfl⟩
  | binary => exact ⟨'b', rfl, by decide, rfl⟩
  | octal => exact ⟨'o', rfl, by decide, rfl⟩

/-- The mark of a base tells which one it is. -/
theorem eq_of_mark_append (hbase : base ≠ .decimal) (hother : other ≠ .decimal)
    (h : base.mark ++ rest = other.mark ++ rest') : base = other ∧ rest = rest' := by
  cases base <;> cases other <;>
    first | exact absurd rfl hbase | exact absurd rfl hother | cases h
  all_goals exact ⟨rfl, rfl⟩

/-- Only the zero of a base mark is a decimal digit. -/
theorem length_le_one_of_mark (hbase : base ≠ .decimal) (hrun : Base.decimal.Run digits)
    (h : digits <+: base.mark ++ rest) : digits.length ≤ 1 := by
  obtain ⟨letter, hmark, -, hletter⟩ := mark_eq hbase
  have hstarts : digits <+: ['0'] ++ letter :: rest := by rwa [hmark] at h
  exact hrun.length_le hletter hstarts

/-- No fraction starts with the zero of a base mark. -/
theorem not_fraction_of_mark (hbase : base ≠ .decimal) (hrun : Base.decimal.Run whole) :
    ¬whole ++ '.' :: digits <+: base.mark ++ rest := by
  intro h
  have hlength := length_le_one_of_mark hbase hrun ((List.prefix_append _ _).trans h)
  obtain ⟨letter, hmark, hdot, -⟩ := mark_eq hbase
  cases hrun with
  | @intro first more hfirst hmore =>
    obtain rfl : more = [] :=
      List.length_eq_zero_iff.1 (Nat.le_zero.1 (Nat.le_of_succ_le_succ hlength))
    rw [hmark] at h
    exact hdot (List.cons_prefix_cons.1 (List.cons_prefix_cons.1 h).2).1.symm

theorem Numeral.run_decimal (h : Numeral .decimal piece value) : Base.decimal.Run piece := by
  obtain ⟨hrun⟩ := h
  exact hrun

/-- A number with a base mark is longer than the zero it starts with. -/
theorem longestNumeral_of_mark (hbase : base ≠ .decimal) (h : LongestRun base digits rest) :
    LongestNumeral base (base.mark ++ digits) (base.value digits) (base.mark ++ rest) where
  numeral := .intro h.run
  starts := (List.prefix_append_right_inj _).2 h.starts
  longest := by
    intro longer hstarts hnumber
    cases hnumber with
    | @whole other _ _ hnumeral =>
      by_cases hother : other = .decimal
      · subst hother
        have hone := length_le_one_of_mark hbase hnumeral.run_decimal hstarts
        have hpos := h.run.length_pos
        rw [List.length_append]
        exact hone.trans (Nat.le_add_left_of_le hpos)
      · obtain ⟨hrun⟩ := hnumeral
        obtain ⟨later, hlater⟩ := hstarts
        rw [List.append_assoc] at hlater
        obtain ⟨rfl, hdigits⟩ := eq_of_mark_append hother hbase hlater
        have hlonger := h.longest _ hrun ⟨later, hdigits⟩
        rw [List.length_append, List.length_append]
        exact Nat.add_le_add_left hlonger _
    | fractional hwhole hfraction => exact absurd hstarts (not_fraction_of_mark hbase hwhole)

/-- No number with a base mark stands at the head of a text. -/
def IsUnmarked (text : List Char) : Prop :=
  ∀ base digits, base ≠ Base.decimal → base.Run digits → ¬base.mark ++ digits <+: text

/-- The digits in front of a point are all the digits there. -/
theorem LongestRun.eq_of_dot (h : LongestRun .decimal digits text) (hrun : Base.decimal.Run whole)
    (hdot : whole ++ '.' :: rest = text) : whole = digits := by
  -- Neither is longer: one is the longest run, and the other ends in front of a point.
  have hle := h.longest whole hrun ⟨_, hdot⟩
  have hge := h.run.length_le (c := '.') rfl (hdot ▸ h.starts)
  exact (List.prefix_of_prefix_length_le ⟨_, hdot⟩ h.starts hle).eq_of_length
    (Nat.le_antisymm hle hge)

/-- Where no number with a base mark and no fraction starts, the decimal digits are the longest
number. -/
theorem longestNumeral_of_decimal (h : LongestRun .decimal digits text) (hmark : IsUnmarked text)
    (hfraction : ∀ fraction, Base.decimal.Run fraction → ¬digits ++ '.' :: fraction <+: text) :
    LongestNumeral .decimal digits (Base.decimal.value digits) text where
  numeral := .intro h.run
  starts := h.starts
  longest := by
    intro longer hstarts hnumber
    cases hnumber with
    | @whole other _ _ hnumeral =>
      by_cases hother : other = .decimal
      · subst hother
        exact h.longest _ hnumeral.run_decimal hstarts
      · obtain ⟨hrun⟩ := hnumeral
        exact absurd hstarts (hmark other _ hother hrun)
    | @fractional whole fraction hwhole hrun =>
      obtain ⟨later, hlater⟩ := hstarts
      have hdot : whole ++ '.' :: (fraction ++ later) = text := by rw [← hlater]; simp
      obtain rfl := h.eq_of_dot hwhole hdot
      exact absurd ⟨later, hlater⟩ (hfraction fraction hrun)

/-- Where a fraction starts and no number with a base mark does, the longest number is not whole. -/
theorem not_longestNumeral_of_fraction (h : LongestRun .decimal digits text)
    (hmark : IsUnmarked text) {fraction : List Char} (hfraction : Base.decimal.Run fraction)
    (hstarts : digits ++ '.' :: fraction <+: text) : ¬LongestNumeral base piece value text := by
  intro hlongest
  by_cases hbase : base = .decimal
  · subst hbase
    have hlonger := hlongest.longest _ hstarts (.fractional h.run hfraction)
    have hshort := h.longest _ hlongest.numeral.run_decimal hlongest.starts
    rw [List.length_append, List.length_cons] at hlonger
    omega
  · obtain ⟨⟨hrun⟩, hpiece, -⟩ := hlongest
    exact hmark base _ hbase hrun hpiece

/-- A number with a base mark is no decimal number. -/
theorem not_run_decimal_of_mark (hbase : base ≠ .decimal) :
    ¬Base.decimal.Run (base.mark ++ digits) := by
  intro hdecimal
  have hone := length_le_one_of_mark hbase hdecimal (List.prefix_refl _)
  obtain ⟨letter, hmark, -⟩ := mark_eq hbase
  rw [hmark] at hone
  exact absurd hone (by simp)

/-- A text is a number in one base only. -/
theorem Numeral.base_eq (h : Numeral base piece value) (h' : Numeral other piece value') :
    base = other := by
  by_cases hbase : base = .decimal
  · subst hbase
    by_contra hother
    have hdecimal := h.run_decimal
    obtain ⟨-⟩ := h'
    exact not_run_decimal_of_mark (Ne.symm hother) hdecimal
  · by_cases hother : other = .decimal
    · subst hother
      have hdecimal := h'.run_decimal
      obtain ⟨-⟩ := h
      exact absurd hdecimal (not_run_decimal_of_mark hbase)
    · generalize hpiece : piece = text at h'
      obtain ⟨-⟩ := h
      obtain ⟨-⟩ := h'
      exact (eq_of_mark_append hbase hother hpiece).1

/-- A numeral has one value, whatever base it is read in. -/
theorem Numeral.value_eq (h : Numeral base piece value) (h' : Numeral other piece value') :
    value = value' := by
  obtain rfl := h.base_eq h'
  generalize hpiece : piece = text at h'
  obtain ⟨-⟩ := h
  obtain ⟨-⟩ := h'
  rw [List.append_cancel_left hpiece]

/-- There is one longest number. -/
theorem LongestNumeral.unique (h : LongestNumeral base piece value text)
    (h' : LongestNumeral other piece' value' text) : piece = piece' ∧ value = value' := by
  have hle := h'.longest piece h.starts (.whole h.numeral)
  have hge := h.longest piece' h'.starts (.whole h'.numeral)
  obtain rfl := (List.prefix_of_prefix_length_le h.starts h'.starts hle).eq_of_length
    (Nat.le_antisymm hle hge)
  exact ⟨rfl, h.numeral.value_eq h'.numeral⟩

/-- Behind the zero of a base mark the digits of the base are read, if there are some. -/
theorem basedNumber?_cases (text : List Char) :
    (∃ base piece value, LongestNumeral base piece value ('0' :: text) ∧
        basedNumber? text = some (integerLexeme piece.length value)) ∨
      basedNumber? text = none ∧ IsUnmarked ('0' :: text) := by
  cases hlexeme : basedNumber? text with
  | some lexeme =>
    obtain ⟨base, rest, hbase, htext⟩ := exists_mark_of_basedNumber? hlexeme
    rw [basedNumber?_of_mark hbase htext] at hlexeme
    obtain ⟨digits, hdigits, rfl⟩ := Option.map_eq_some_iff.1 hlexeme
    have hrun := longestRun_of_basedDigits? hdigits
    refine .inl ⟨base, base.mark ++ digits, base.value digits, ?_, ?_⟩
    · rw [htext]
      exact longestNumeral_of_mark hbase hrun
    · rw [digitsValue_eq_value hrun.run]
  | none =>
    refine .inr ⟨rfl, fun base digits hbase hrun ⟨later, hlater⟩ ↦ ?_⟩
    rw [List.append_assoc] at hlater
    rw [basedNumber?_of_mark hbase hlater.symm, Option.map_eq_none_iff] at hlexeme
    exact not_prefix_of_basedDigits? hlexeme hrun (List.prefix_append _ _)

/-- The digits of a fraction are read if a point stands in front of them. -/
theorem fractionDigits?_cases (text : List Char) :
    (∃ fraction, fractionDigits? text = some fraction ∧ Base.decimal.Run fraction ∧
        '.' :: fraction <+: text) ∨
      fractionDigits? text = none ∧
        ∀ fraction, Base.decimal.Run fraction → ¬ '.' :: fraction <+: text := by
  unfold fractionDigits?
  split
  · rename_i rest
    rw [← isDigit_decimal]
    cases hdigits : basedDigits? Base.decimal.isDigit rest with
    | some fraction =>
      have hrun := longestRun_of_basedDigits? hdigits
      exact .inl ⟨fraction, rfl, hrun.run, List.cons_prefix_cons.2 ⟨rfl, hrun.starts⟩⟩
    | none =>
      refine .inr ⟨rfl, fun fraction hrun hstarts ↦ ?_⟩
      exact not_prefix_of_basedDigits? hdigits hrun (List.cons_prefix_cons.1 hstarts).2
  · rename_i hdot
    exact .inr ⟨rfl, fun fraction hrun ⟨later, hlater⟩ ↦ hdot _ hlater.symm⟩

/-- A lexeme is the longest number at the head of a text if that is a whole number, and it is
something else otherwise. -/
inductive Lexeme.ReadsNumber (lexeme : Lexeme) (text : List Char) : Prop where
  | whole {base : Base} {piece : List Char} {value : Nat}
      (hlongest : LongestNumeral base piece value text)
      (hlexeme : lexeme = integerLexeme piece.length value) : ReadsNumber lexeme text
  | other (hother : lexeme.isOther = true)
      (hnone : ∀ base piece value, ¬LongestNumeral base piece value text) : ReadsNumber lexeme text

/-- Decimal digits are a whole number if no fraction follows them. -/
theorem readsNumber_decimalNumber (hfirst : first.isDigit = true)
    (hmark : IsUnmarked (first :: text)) :
    (decimalNumber first text).ReadsNumber (first :: text) := by
  -- The digits are those that would be read behind a mark, only that their base has none.
  let whole := first :: text.takeWhile fun c ↦ c.isDigit || c == '_'
  have hwhole : LongestRun .decimal whole (first :: text) := by
    refine longestRun_of_basedDigits? ?_
    rw [isDigit_decimal]
    exact if_pos hfirst
  have hsplit : whole ++ (first :: text).drop whole.length = first :: text := by
    obtain ⟨rest, hrest⟩ := hwhole.starts
    rw [← hrest, List.drop_left]
  have hbehind : ∀ fraction, '.' :: fraction <+: (first :: text).drop whole.length ↔
      whole ++ '.' :: fraction <+: first :: text := fun fraction ↦ by
    rw [← List.prefix_append_right_inj whole, hsplit]
  rcases fractionDigits?_cases ((first :: text).drop whole.length) with
    ⟨fraction, hfraction, hrun, hstarts⟩ | ⟨hfraction, hnone⟩
  · refine .other ?_ fun base piece value ↦
      not_longestNumeral_of_fraction hwhole hmark hrun ((hbehind _).1 hstarts)
    unfold decimalNumber
    dsimp only
    rw [hfraction]
    rfl
  · refine .whole (longestNumeral_of_decimal hwhole hmark
      fun fraction hrun hstarts ↦ hnone fraction hrun ((hbehind _).2 hstarts)) ?_
    rw [← digitsValue_eq_value hwhole.run]
    unfold decimalNumber
    dsimp only
    rw [hfraction]
    rfl

/-- A base mark starts with a zero. -/
theorem eq_zero_of_mark (hbase : base ≠ .decimal) (h : base.mark ++ digits <+: first :: text) :
    first = '0' := by
  obtain ⟨letter, hmark, -⟩ := mark_eq hbase
  rw [hmark] at h
  exact (List.cons_prefix_cons.1 h).1.symm

/-- A whole number is read where it is the longest number. -/
theorem readsNumber_numberLexeme (hfirst : first.isDigit = true) :
    (numberLexeme first text).ReadsNumber (first :: text) := by
  unfold numberLexeme
  by_cases hzero : first = '0'
  · subst hzero
    rw [if_pos rfl]
    rcases basedNumber?_cases text with ⟨base, piece, value, hlongest, hlexeme⟩ | ⟨hlexeme, hmark⟩
    · rw [hlexeme]
      exact .whole hlongest rfl
    · rw [hlexeme]
      exact readsNumber_decimalNumber hfirst hmark
  · rw [if_neg hzero]
    exact readsNumber_decimalNumber hfirst fun base digits hbase hrun hstarts ↦
      hzero (eq_zero_of_mark hbase hstarts)

theorem Numeral.ne_nil (h : Numeral base piece value) : piece ≠ [] := by
  obtain ⟨hrun⟩ := h
  exact fun hnil ↦ Nat.ne_of_gt hrun.length_pos
    (List.length_eq_zero_iff.2 (List.append_eq_nil_iff.1 hnil).2)

/-- A whole number starts with a digit. -/
theorem Numeral.isDigit_head (h : Numeral base piece value) (hstarts : piece <+: first :: text) :
    first.isDigit = true := by
  by_cases hbase : base = .decimal
  · subst hbase
    have hrun := h.run_decimal
    cases hrun with
    | intro hdigit hmore =>
      rw [isDigit_decimal] at hdigit
      rwa [(List.cons_prefix_cons.1 hstarts).1] at hdigit
  · obtain ⟨-⟩ := h
    rw [eq_zero_of_mark hbase hstarts]
    rfl

/-- At every place the lexer reads the number that stands there, and none where there is none. -/
theorem readsNumber_lexemeAt (first : Char) (text : List Char) :
    (lexemeAt first text).ReadsNumber (first :: text) := by
  cases hfirst : first.isDigit with
  | true =>
    rw [lexemeAt_of_isDigit hfirst]
    exact readsNumber_numberLexeme hfirst
  | false =>
    refine .other (isOther_lexemeAt hfirst text) fun base piece value hlongest ↦ ?_
    exact absurd (hlongest.numeral.isDigit_head hlongest.starts) (Bool.eq_false_iff.1 hfirst)

end Numbers

/-! ## The numbers of a source -/

section Items

variable {source : String} {item : Except LexError Token}

inductive Lexeme.Becomes (lexeme : Lexeme) (span : Span) : Except LexError Token → Prop where
  | token {kind : TokenKind} (h : lexeme.reading = .token kind) :
      Becomes lexeme span (.ok ⟨kind, span⟩)
  | error {kind : LexErrorKind} (h : lexeme.reading = .error kind) :
      Becomes lexeme span (.error ⟨kind, span⟩)

/-- The first item of a text is its first lexeme, or that one is skipped. -/
theorem becomes_or_mem_of_mem_scanFrom {bound offset : Nat} {first : Char} {text : List Char}
    (h : item ∈ scanFrom (bound + 1) offset (first :: text)) :
    let piece := (first :: text).take (lexemeAt first text).length
    (lexemeAt first text).Becomes ⟨offset, offset + Text.byteLength piece⟩ item ∨
      item ∈ scanFrom bound (offset + Text.byteLength piece)
        ((first :: text).drop (lexemeAt first text).length) := by
  intro piece
  unfold scanFrom at h
  dsimp only at h
  cases hreading : (lexemeAt first text).reading with
  | skipped =>
    rw [hreading] at h
    exact .inr h
  | token kind =>
    rw [hreading] at h
    rcases List.mem_cons.1 h with rfl | hitem
    · exact .inl (.token hreading)
    · exact .inr hitem
  | error kind =>
    rw [hreading] at h
    rcases List.mem_cons.1 h with rfl | hitem
    · exact .inl (.error hreading)
    · exact .inr hitem

/-- Every item but the end of the source is the lexeme at its place. -/
theorem becomes_of_mem_scanFrom {bound offset : Nat} {text : List Char}
    (h : item ∈ scanFrom bound offset text) :
    item = .ok ⟨.eof, ⟨offset + Text.byteLength text, offset + Text.byteLength text⟩⟩ ∨
      ∃ front first rest, text = front ++ first :: rest ∧
        (lexemeAt first rest).Becomes ⟨offset + Text.byteLength front, offset + Text.byteLength
          (front ++ (first :: rest).take (lexemeAt first rest).length)⟩ item := by
  induction bound generalizing offset text with
  | zero =>
    cases text with
    | nil => exact .inl (List.mem_singleton.1 h)
    | cons first text => cases h
  | succ bound ih =>
    cases text with
    | nil => exact .inl (List.mem_singleton.1 h)
    | cons first text =>
      rcases becomes_or_mem_of_mem_scanFrom h with hitem | hitem
      · exact .inr ⟨[], first, text, rfl, hitem⟩
      · -- What comes behind the first lexeme is shifted by its length.
        have hsplit := List.take_append_drop (lexemeAt first text).length (first :: text)
        rcases ih hitem with hend | ⟨front, first', rest, htext, hitem⟩
        · rw [Nat.add_assoc, ← Text.byteLength_append, hsplit] at hend
          exact .inl hend
        · rw [htext] at hsplit
          refine .inr ⟨(first :: text).take (lexemeAt first text).length ++ front, first', rest, ?_,
            ?_⟩
          · rw [List.append_assoc, hsplit]
          · rwa [Nat.add_assoc, Nat.add_assoc, ← Text.byteLength_append, ← Text.byteLength_append,
              ← List.append_assoc] at hitem

/-- A whole number of a text: a token with its value, or an error if that is too large. -/
def integerItem (value : Nat) (span : Span) : Except LexError Token :=
  if value < 2 ^ 63 then .ok ⟨.int value, span⟩ else .error ⟨.invalidNumber, span⟩

/-- Whether an item is a whole number or the error of one that is too large. -/
def isInteger : Except LexError Token → Bool
  | .ok ⟨.int _, _⟩ | .error ⟨.invalidNumber, _⟩ => true
  | _ => false

theorem length_integerLexeme (length value : Nat) :
    (integerLexeme length value).length = length := by
  unfold integerLexeme
  split <;> rfl

theorem le_maxInteger_iff (value : Nat) : value ≤ maxInteger ↔ value < 2 ^ 63 :=
  Nat.lt_succ_iff.symm

/-- A number that is too large becomes an error, and any other one a token with its value. -/
theorem Lexeme.Becomes.eq_integerItem {length value : Nat} {span : Span}
    (h : (integerLexeme length value).Becomes span item) : item = integerItem value span := by
  simp only [integerLexeme, le_maxInteger_iff] at h
  unfold integerItem
  by_cases hvalue : value < 2 ^ 63
  · rw [if_pos hvalue] at h
    rw [if_pos hvalue]
    cases h with
    | token hreading => cases hreading; rfl
    | error hreading => cases hreading
  · rw [if_neg hvalue] at h
    rw [if_neg hvalue]
    cases h with
    | token hreading => cases hreading
    | error hreading => cases hreading; rfl

/-- A lexeme that is no number becomes no number. -/
theorem Lexeme.Becomes.isInteger_eq_false {lexeme : Lexeme} {span : Span}
    (h : lexeme.Becomes span item) (hother : lexeme.isOther = true) : isInteger item = false := by
  unfold Lexeme.isOther at hother
  cases h with
  | @token kind hreading =>
    rw [hreading] at hother
    cases kind <;> first | rfl | cases hother
  | @error kind hreading =>
    rw [hreading] at hother
    cases kind <;> first | rfl | cases hother

/-- What stands where an item of a source starts is a whole number if the longest number there is
one, and only then. -/
theorem exists_text_of_mem_scan (h : item ∈ scan source) :
    ∃ front text, source.toList = front ++ text ∧ Text.byteLength front = (itemSpan item).start ∧
      (∀ base piece value, LongestNumeral base piece value text →
        item = integerItem value ⟨Text.byteLength front, Text.byteLength (front ++ piece)⟩) ∧
      (isInteger item = true → ∃ base piece value, LongestNumeral base piece value text) := by
  rcases becomes_of_mem_scanFrom h with rfl | ⟨front, first, rest, hsource, hitem⟩
  · refine ⟨source.toList, [], (List.append_nil _).symm, (Nat.zero_add _).symm,
      fun base piece value hlongest ↦ ?_, fun hinteger ↦ by cases hinteger⟩
    exact absurd (List.prefix_nil.1 hlongest.starts) hlongest.numeral.ne_nil
  · rw [Nat.zero_add, Nat.zero_add] at hitem
    refine ⟨front, first :: rest, hsource, ?_, ?_⟩
    · cases hitem <;> rfl
    cases readsNumber_lexemeAt first rest with
    | @whole base piece value hlongest hlexeme =>
      rw [hlexeme] at hitem
      refine ⟨fun base' piece' value' hlongest' ↦ ?_, fun _ ↦ ⟨base, piece, value, hlongest⟩⟩
      obtain ⟨rfl, rfl⟩ := hlongest.unique hlongest'
      have hpiece : (first :: rest).take (integerLexeme piece.length value).length = piece := by
        rw [length_integerLexeme]
        exact (List.prefix_iff_eq_take.1 hlongest.starts).symm
      rw [hpiece] at hitem
      exact hitem.eq_integerItem
    | other hother hnone =>
      refine ⟨fun base piece value hlongest ↦ absurd hlongest (hnone base piece value),
        fun hinteger ↦ ?_⟩
      exact absurd hinteger (Bool.eq_false_iff.1 (hitem.isInteger_eq_false hother))

def StandsAt (source : String) (piece : List Char) (span : Span) : Prop :=
  ∃ front back, source.toList = front ++ piece ++ back ∧
    span = ⟨Text.byteLength front, Text.byteLength (front ++ piece)⟩

/-- A token with a number stands where that number is written. -/
theorem exists_numeral_of_mem_tokens {token : Token} {value : Int} (h : token ∈ tokens source)
    (hkind : token.kind = .int value) :
    ∃ base digits magnitude, Numeral base digits magnitude ∧
      StandsAt source digits token.span ∧ value = magnitude ∧ magnitude < 2 ^ 63 := by
  have hitem : .ok token ∈ scan source := by
    obtain ⟨item, hitem, htoken⟩ := List.mem_filterMap.1 h
    cases item with
    | ok found => cases htoken; exact hitem
    | error error => cases htoken
  obtain ⟨kind, span⟩ := token
  cases hkind
  obtain ⟨front, text, hsource, -, hnumber, hinteger⟩ := exists_text_of_mem_scan hitem
  obtain ⟨base, digits, magnitude, hlongest⟩ := hinteger rfl
  have hread := hnumber base digits magnitude hlongest
  unfold integerItem at hread
  split at hread
  · rename_i hlt
    cases hread
    obtain ⟨back, rfl⟩ := hlongest.starts
    refine ⟨base, digits, magnitude, hlongest.numeral, ⟨front, back, ?_, rfl⟩, rfl, hlt⟩
    rw [hsource, List.append_assoc]
  · cases hread

end Items

end DeclaredMethods.Source
