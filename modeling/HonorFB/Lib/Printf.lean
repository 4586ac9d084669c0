import Mathlib.Data.List.TakeWhile
import Mathlib.Tactic.IntervalCases

/-!
# Formatted output and reading it back

A format is a list of directives: text to print as it is, a number in some base with a least width,
or a word. `printf` prints arguments under a format, `scan` reads a text under the same format. A
directive is read as the longest run of its own characters, so the arguments come back where every
directive is followed by a text that does not go on with such a character (`scan_printf`).
-/

namespace Printf

/-! ## Numerals -/

/-- The value of a digit `0` to `9` or `a` to `f`. -/
def digitValue (c : Char) : Nat := if c.toNat < 97 then c.toNat - 48 else c.toNat - 87

def isDigit (b : Nat) (c : Char) : Bool :=
  decide (48 ≤ c.toNat ∧ c.toNat < 58 ∨ 97 ≤ c.toNat) && decide (digitValue c < b)

def numeral (b width n : Nat) : List Char :=
  List.replicate (width - (Nat.toDigits b n).length) '0' ++ Nat.toDigits b n

def readNumeral (b : Nat) (digits : List Char) : Nat :=
  digits.foldl (fun n c => b * n + digitValue c) 0

theorem digitValue_digitChar {d : Nat} (h : d < 16) : digitValue d.digitChar = d := by
  interval_cases d <;> rfl

theorem isDigit_digitChar {b d : Nat} (hb : b ≤ 16) (h : d < b) :
    isDigit b d.digitChar = true := by
  have hd : d < 16 := by omega
  unfold isDigit
  rw [digitValue_digitChar hd, Bool.and_eq_true, decide_eq_true_eq, decide_eq_true_eq]
  refine ⟨?_, h⟩
  interval_cases d <;> decide

theorem isDigit_of_mem_toDigits {b : Nat} (hb : 1 < b) (hb' : b ≤ 16) (n : Nat) :
    ∀ c ∈ Nat.toDigits b n, isDigit b c = true := by
  induction n using Nat.base_induction b hb with
  | single d hd =>
    intro c hc
    rw [Nat.toDigits_of_lt_base hd, List.mem_singleton] at hc
    rw [hc]
    exact isDigit_digitChar hb' hd
  | digit n d hd hn ih =>
    intro c hc
    rw [← Nat.toDigits_append_toDigits hb hn hd, List.mem_append, Nat.toDigits_of_lt_base hd,
      List.mem_singleton] at hc
    rcases hc with hc | hc
    · exact ih c hc
    · rw [hc]
      exact isDigit_digitChar hb' hd

theorem readNumeral_concat (b : Nat) (digits : List Char) (c : Char) :
    readNumeral b (digits ++ [c]) = b * readNumeral b digits + digitValue c := by
  unfold readNumeral
  rw [List.foldl_append]
  rfl

theorem readNumeral_toDigits {b : Nat} (hb : 1 < b) (hb' : b ≤ 16) (n : Nat) :
    readNumeral b (Nat.toDigits b n) = n := by
  induction n using Nat.base_induction b hb with
  | single d hd =>
    have hd' : d < 16 := by omega
    rw [Nat.toDigits_of_lt_base hd]
    unfold readNumeral
    rw [List.foldl_cons, List.foldl_nil, digitValue_digitChar hd']
    omega
  | digit n d hd hn ih =>
    have hd' : d < 16 := by omega
    rw [← Nat.toDigits_append_toDigits hb hn hd, Nat.toDigits_of_lt_base hd, readNumeral_concat,
      ih, digitValue_digitChar hd']

theorem readNumeral_zeros (b k : Nat) (digits : List Char) :
    readNumeral b (List.replicate k '0' ++ digits) = readNumeral b digits := by
  induction k with
  | zero => rfl
  | succ k ih =>
    have hzero : b * 0 + digitValue '0' = 0 := by
      rw [Nat.mul_zero]
      rfl
    unfold readNumeral at ih ⊢
    rw [List.replicate_succ, List.cons_append, List.foldl_cons, hzero]
    exact ih

theorem isDigit_of_mem_numeral {b : Nat} (hb : 1 < b) (hb' : b ≤ 16) (width n : Nat) :
    ∀ c ∈ numeral b width n, isDigit b c = true := by
  intro c hc
  unfold numeral at hc
  rcases List.mem_append.1 hc with hc | hc
  · rw [List.eq_of_mem_replicate hc]
    exact isDigit_digitChar hb' (show 0 < b by omega)
  · exact isDigit_of_mem_toDigits hb hb' n c hc

theorem readNumeral_numeral {b : Nat} (hb : 1 < b) (hb' : b ≤ 16) (width n : Nat) :
    readNumeral b (numeral b width n) = n := by
  unfold numeral
  rw [readNumeral_zeros, readNumeral_toDigits hb hb']

theorem numeral_ne_nil (b width n : Nat) : numeral b width n ≠ [] := by
  unfold numeral
  intro h
  exact Nat.toDigits_ne_nil (List.append_eq_nil_iff.1 h).2

/-! ## Formats -/

inductive Directive where
  | text (t : List Char)
  | number (b width : Nat)
  | word
  deriving DecidableEq

inductive Arg where
  | number (n : Nat)
  | word (w : List Char)
  deriving DecidableEq

def isWordChar (c : Char) : Bool := c.isAlphanum || c == '_'

def printf : List Directive → List Arg → List Char
  | .text t :: format, args => t ++ printf format args
  | .number b width :: format, .number n :: args => numeral b width n ++ printf format args
  | .word :: format, .word w :: args => w ++ printf format args
  | _, _ => []

/-- The longest run of such characters, and what is left. -/
def run (p : Char → Bool) (t : List Char) : List Char × List Char :=
  (t.takeWhile p, t.dropWhile p)

def scan : List Directive → List Char → Option (List Arg)
  | [], t => if t = [] then some [] else none
  | .text t' :: format, t => if t' <+: t then scan format (t.drop t'.length) else none
  | .number b _ :: format, t =>
    let (digits, rest) := run (isDigit b) t
    if digits = [] then none else (scan format rest).map (.number (readNumeral b digits) :: ·)
  | .word :: format, t =>
    let (w, rest) := run isWordChar t
    (scan format rest).map (.word w :: ·)

/-- The format goes on with a text that does not begin with such a character, or ends. -/
def stops (p : Char → Bool) : List Directive → Bool
  | [] => true
  | .text (c :: _) :: _ => !p c
  | _ => false

/-- No directive runs into what stands behind it. -/
def delimited : List Directive → Bool
  | [] => true
  | .text _ :: format => delimited format
  | .number b _ :: format =>
    decide (1 < b) && decide (b ≤ 16) && stops (isDigit b) format && delimited format
  | .word :: format => stops isWordChar format && delimited format

/-- One argument for each directive that takes one, of its kind. -/
def fits : List Directive → List Arg → Bool
  | [], [] => true
  | .text _ :: format, args => fits format args
  | .number _ _ :: format, .number _ :: args => fits format args
  | .word :: format, .word w :: args => w.all isWordChar && fits format args
  | _, _ => false

theorem run_append {p : Char → Bool} {w t : List Char} (hw : ∀ c ∈ w, p c = true)
    (ht : ∀ c, t.head? = some c → p c = false) : run p (w ++ t) = (w, t) := by
  unfold run
  rw [List.takeWhile_append_of_pos hw, List.dropWhile_append_of_pos hw]
  cases t with
  | nil => rw [List.takeWhile_nil, List.append_nil, List.dropWhile_nil]
  | cons c t =>
    have hc : ¬p c = true := by
      rw [ht c rfl]
      exact Bool.false_ne_true
    rw [List.takeWhile_cons_of_neg hc, List.append_nil, List.dropWhile_cons_of_neg hc]

theorem head?_printf {p : Char → Bool} {format : List Directive} (h : stops p format = true)
    (args : List Arg) : ∀ c, (printf format args).head? = some c → p c = false := by
  intro c hc
  match format with
  | [] => cases hc
  | .text [] :: format => cases h
  | .text (c' :: t) :: format =>
    obtain rfl := Option.some.inj hc
    exact Bool.not_eq_true' _ ▸ h
  | .number _ _ :: format => cases h
  | .word :: format => cases h

/-- **What was printed under a delimited format is read back.** -/
theorem scan_printf {format : List Directive} (h : delimited format = true) :
    ∀ {args : List Arg}, fits format args = true →
      scan format (printf format args) = some args := by
  induction format with
  | nil =>
    intro args hfits
    cases args with
    | nil => rfl
    | cons arg args => cases hfits
  | cons directive format ih =>
    intro args hfits
    cases directive with
    | text t =>
      unfold printf scan
      rw [if_pos (List.prefix_append _ _), List.drop_left]
      exact ih h hfits
    | number b width =>
      unfold delimited at h
      simp only [Bool.and_eq_true, decide_eq_true_eq] at h
      obtain ⟨⟨⟨hb, hb'⟩, hstops⟩, hrest⟩ := h
      match args, hfits with
      | .number n :: args, hfits =>
        have hrun := run_append (isDigit_of_mem_numeral hb hb' width n)
          (head?_printf hstops args)
        unfold printf scan
        simp only [hrun]
        rw [if_neg (numeral_ne_nil b width n), ih hrest hfits, readNumeral_numeral hb hb']
        rfl
    | word =>
      unfold delimited at h
      obtain ⟨hstops, hrest⟩ := (Bool.and_eq_true _ _ ▸ h : _ ∧ _)
      match args, hfits with
      | .word w :: args, hfits =>
        unfold fits at hfits
        obtain ⟨hw, hfits⟩ := (Bool.and_eq_true _ _ ▸ hfits : _ ∧ _)
        have hrun := run_append (List.all_eq_true.1 hw) (head?_printf hstops args)
        unfold printf scan
        simp only [hrun]
        rw [ih hrest hfits]
        rfl

/-- A text that begins otherwise than the format is not read. -/
theorem scan_text_eq_none {t t' : List Char} (h : ¬(t <+: t' ∨ t' <+: t))
    (format format' : List Directive) (args : List Arg) :
    scan (.text t :: format) (printf (.text t' :: format') args) = none := by
  unfold printf scan
  apply if_neg
  intro hbegins
  exact h (List.prefix_or_prefix_of_prefix hbegins (List.prefix_append _ _))

end Printf
