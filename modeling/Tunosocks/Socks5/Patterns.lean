import Tunosocks.Foundation.Regex
import Tunosocks.Socks5.ProtocolHelper

/-! The two regular expressions of the protocol helper and the texts they match. -/
namespace Tunosocks.Socks5
open Foundation.Regex

/-- What `\w` is for the default traits. -/
def wordChar (c : Char) : Bool := c.isAlphanum || c == '_'

def literal (c : Char) : Pattern Char := .symbol (· == c)

def digit : Pattern Char := .symbol Char.isDigit

def range (lo hi : Char) : Pattern Char := .symbol fun c => lo ≤ c && c ≤ hi

/-- `25[0-5]|2[0-4][0-9]|1[0-9][0-9]|[1-9][0-9]|[0-9]` -/
def octet : Pattern Char :=
  .alt (.seq (literal '2') (.seq (literal '5') (range '0' '5')))
    (.alt (.seq (literal '2') (.seq (range '0' '4') digit))
      (.alt (.seq (literal '1') (.seq digit digit)) (.alt (.seq (range '1' '9') digit) digit)))

/-- `((..)\.){3}(..)` -/
def dottedQuad : Pattern Char := .seq (.rep (.seq octet (literal '.')) 3 3) octet

/-- `[a-zA-Z0-9]{1,63}|[a-zA-Z0-9][a-zA-Z0-9-]{0,61}[a-zA-Z0-9]` -/
def label : Pattern Char :=
  .alt (.rep (.symbol Char.isAlphanum) 1 63)
    (.seq (.symbol Char.isAlphanum)
      (.seq (.rep (.symbol fun c => c.isAlphanum || c == '-') 0 61) (.symbol Char.isAlphanum)))

/-- `((..)\.){0,3}[a-zA-Z]{2,63}` -/
def dottedLabels : Pattern Char :=
  .seq (.rep (.seq label (literal '.')) 0 3) (.rep (.symbol Char.isAlpha) 2 63)

/-- `regex_match` against `domainPattern`: the labels, then `\b(?!\.)`. -/
def domainPattern (text : List Char) : Bool :=
  regexMatch wordChar (.seq dottedLabels (.seq .wordBoundary (.notAhead (literal '.')))) text

private theorem accepts_octet {w : List Char} : octet.Accepts w ↔ octetPattern w = true := by
  match w with
  | [] => simp [octet, Pattern.Accepts.eq_3, literal, range, digit, octetPattern]
  | [a] => simp [octet, Pattern.Accepts.eq_3, literal, range, digit, octetPattern]
  | [a, b] => simp [octet, Pattern.Accepts.eq_3, literal, range, digit, octetPattern]
  | [a, b, c] =>
    simp [octet, Pattern.Accepts.eq_3, literal, range, digit, octetPattern]
    tauto
  | a :: b :: c :: d :: rest => simp [octet, Pattern.Accepts.eq_3, literal, range, digit, octetPattern]

private theorem dot_of_octet {w : List Char} (h : octetPattern w = true) : '.' ∉ w := by
  have notDigit : '.'.isDigit = false := rfl
  have below : ¬ '0' ≤ '.' := by decide
  have below' : ¬ '1' ≤ '.' := by decide
  intro dot
  match w with
  | [] => exact List.not_mem_nil dot
  | [a] =>
    obtain rfl : '.' = a := by simpa using dot
    simp [octetPattern, notDigit] at h
  | [a, b] =>
    rcases List.mem_pair.mp dot with rfl | rfl <;> simp [octetPattern, notDigit, below'] at h
  | [a, b, c] =>
    simp only [List.mem_cons, List.not_mem_nil, or_false] at dot
    rcases dot with rfl | rfl | rfl <;> simp [octetPattern, notDigit, below] at h
  | a :: b :: c :: d :: rest => simp [octetPattern] at h

/-- Pieces with a dot behind each. -/
private theorem accepts_dotted {r : Pattern Char} {lo hi : Nat} {w : List Char} :
    (Pattern.rep (.seq r (literal '.')) lo hi).Accepts w ↔ ∃ ls : List (List Char),
      lo ≤ ls.length ∧ ls.length ≤ hi ∧ (∀ l ∈ ls, r.Accepts l) ∧ w = ls.flatMap (· ++ ['.']) := by
  constructor
  · rintro ⟨ws, least, most, all, rfl⟩
    obtain ⟨ls, rfl, each⟩ : ∃ ls : List (List Char), ws = ls.map (· ++ ['.']) ∧ ∀ l ∈ ls, r.Accepts l := by
      clear least most
      induction ws with
      | nil => exact ⟨[], rfl, by simp⟩
      | cons u ws ih =>
        obtain ⟨l, _, hl, ⟨d, hd, rfl⟩, rfl⟩ := all u (by simp)
        obtain rfl : d = '.' := by simpa using hd
        obtain ⟨ls, rfl, each⟩ := ih fun v hv => all v (by simp [hv])
        exact ⟨l :: ls, rfl, by simpa using ⟨hl, each⟩⟩
    rw [List.length_map] at least most
    exact ⟨ls, least, most, each, List.flatMap_def.symm⟩
  · rintro ⟨ls, least, most, each, rfl⟩
    refine ⟨ls.map (· ++ ['.']), by simpa using least, by simpa using most, ?_, List.flatMap_def⟩
    intro u hu
    obtain ⟨l, hl, rfl⟩ := List.mem_map.mp hu
    exact ⟨l, ['.'], each l hl, ⟨'.', by simp, rfl⟩, rfl⟩

private theorem accepts_dottedQuad {text : List Char} : dottedQuad.Accepts text ↔
    ∃ a b c d : List Char, (∀ l ∈ [a, b, c, d], octetPattern l = true) ∧ text = ['.'].intercalate [a, b, c, d] := by
  constructor
  · rintro ⟨u, d, dotted, last, rfl⟩
    obtain ⟨ls, least, most, each, rfl⟩ := accepts_dotted.mp dotted
    obtain ⟨a, b, c, rfl⟩ := List.length_eq_three.mp (by omega : ls.length = 3)
    refine ⟨a, b, c, d, ?_, by simp⟩
    simp only [accepts_octet] at each last
    simpa [and_assoc] using ⟨each a (by simp), each b (by simp), each c (by simp), last⟩
  · rintro ⟨a, b, c, d, each, rfl⟩
    refine ⟨[a, b, c].flatMap (· ++ ['.']), d, accepts_dotted.mpr ⟨[a, b, c], by simp, by simp, ?_, rfl⟩,
      accepts_octet.mpr (each d (by simp)), by simp⟩
    intro l hl
    exact accepts_octet.mpr (each l (by simp only [List.mem_cons] at hl ⊢; tauto))

/-- The quad test of the parsers is the regular expression. -/
theorem ipPattern_eq (text : List Char) : ipPattern text = regexMatch wordChar dottedQuad text := by
  rw [Bool.eq_iff_iff, regexMatch_iff (by simp [dottedQuad, octet, literal, digit, range, Pattern.Plain]),
    accepts_dottedQuad, ipPattern, Bool.and_eq_true, beq_iff_eq, List.all_eq_true]
  constructor
  · rintro ⟨four, each⟩
    obtain ⟨a, b, c, d, split⟩ := List.length_eq_four.mp four
    rw [split] at each
    exact ⟨a, b, c, d, each, by rw [← split, List.intercalate_splitOn]⟩
  · rintro ⟨a, b, c, d, each, rfl⟩
    rw [List.splitOn_intercalate '.' (fun l hl => dot_of_octet (each l hl)) (by simp)]
    exact ⟨rfl, each⟩

/-- Up to three labels with a dot behind each, then a name of letters. -/
theorem domainPattern_iff (text : List Char) : domainPattern text = true ↔
    ∃ (labels : List (List Char)) (top : List Char), labels.length ≤ 3 ∧ (∀ l ∈ labels, label.Accepts l) ∧
      2 ≤ top.length ∧ top.length ≤ 63 ∧ (∀ c ∈ top, c.isAlpha = true) ∧
      text = labels.flatMap (· ++ ['.']) ++ top := by
  have plain : dottedLabels.Plain := by simp [dottedLabels, label, literal, Pattern.Plain]
  rw [domainPattern, literal, regexMatch_closed_iff plain]
  constructor
  · rintro ⟨⟨u, top, dotted, letters, rfl⟩, _⟩
    obtain ⟨labels, _, most, each, rfl⟩ := accepts_dotted.mp dotted
    obtain ⟨two, short, alpha⟩ := Pattern.accepts_rep_symbol.mp letters
    exact ⟨labels, top, most, each, two, short, alpha, rfl⟩
  · rintro ⟨labels, top, most, each, two, short, alpha, rfl⟩
    refine ⟨⟨_, top, accepts_dotted.mpr ⟨labels, by omega, most, each, rfl⟩,
      Pattern.accepts_rep_symbol.mpr ⟨two, short, alpha⟩, rfl⟩, ?_⟩
    have nonempty : top ≠ [] := by
      rintro rfl
      simp at two
    rw [List.getLast?_append_of_ne_nil _ nonempty, List.getLast?_eq_some_getLast nonempty]
    simp [wordChar, Char.isAlphanum, alpha _ (List.getLast_mem nonempty)]

private theorem length_of_label {l : List Char} (h : label.Accepts l) : l.length ≤ 63 := by
  rcases h with h | ⟨_, _, ⟨a, _, rfl⟩, ⟨m, _, inner, ⟨b, _, rfl⟩, rfl⟩, rfl⟩
  · exact (Pattern.accepts_rep_symbol.mp h).2.1
  · have := (Pattern.accepts_rep_symbol.mp inner).2.1
    simp only [List.length_append, List.length_cons, List.length_nil]
    omega

/-- Every name the pattern matches fits the length byte of a request. -/
theorem length_of_domainPattern {text : List Char} (h : domainPattern text = true) :
    2 ≤ text.length ∧ text.length ≤ 255 := by
  obtain ⟨labels, top, most, each, two, short, _, rfl⟩ := (domainPattern_iff text).mp h
  have dotted (ls : List (List Char)) (hl : ∀ l ∈ ls, label.Accepts l) :
      (ls.flatMap (· ++ ['.'])).length ≤ 64 * ls.length := by
    induction ls with
    | nil => simp
    | cons l ls ih =>
      have one := length_of_label (hl l (by simp))
      have rest := ih fun x hx => hl x (by simp [hx])
      simp only [List.flatMap_cons, List.length_append, List.length_cons, List.length_nil]
      omega
  have := dotted labels each
  rw [List.length_append]
  omega

end Tunosocks.Socks5
