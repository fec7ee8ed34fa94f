import Mathlib.Data.List.Basic

/-! Patterns with bounded repetition and the assertions `\b` and `(?!..)`, a matcher that follows every alternative,
and the words a pattern without assertions accepts. -/
namespace Tunosocks.Foundation.Regex
variable {α : Type}

inductive Pattern (α : Type) where
  | symbol (p : α → Bool)
  | seq (r s : Pattern α)
  | alt (r s : Pattern α)
  | rep (r : Pattern α) (lo hi : Nat)
  | wordBoundary
  | notAhead (r : Pattern α)

/-- A place in a text: the symbol before it, if there is one, and what follows. -/
structure Place (α : Type) where
  prev : Option α
  rest : List α

/-- Between `lo` and `hi` rounds of a step, longer runs first. -/
def repeated (step : Place α → List (Place α)) : Nat → Nat → Place α → List (Place α)
  | lo, 0, a => if lo = 0 then [a] else []
  | lo, hi + 1, a => (step a).flatMap (repeated step (lo - 1) hi) ++ if lo = 0 then [a] else []

/-- Every place at which a match from a given one can end. -/
def ends (word : α → Bool) : Pattern α → Place α → List (Place α)
  | .symbol p, a =>
    match a.rest with
    | [] => []
    | c :: rest => if p c then [⟨some c, rest⟩] else []
  | .seq r s, a => (ends word r a).flatMap (ends word s)
  | .alt r s, a => ends word r a ++ ends word s a
  | .rep r lo hi, a => repeated (ends word r) lo hi a
  | .wordBoundary, a => if a.prev.any word != a.rest.head?.any word then [a] else []
  | .notAhead r, a => if (ends word r a).isEmpty then [a] else []

/-- Does the pattern match the whole text? -/
def regexMatch (word : α → Bool) (r : Pattern α) (text : List α) : Bool :=
  (ends word r ⟨none, text⟩).any fun a => a.rest.isEmpty

/-- The words of a pattern without assertions. -/
def Pattern.Accepts : Pattern α → List α → Prop
  | .symbol p, w => ∃ c, p c = true ∧ w = [c]
  | .seq r s, w => ∃ u v, r.Accepts u ∧ s.Accepts v ∧ w = u ++ v
  | .alt r s, w => r.Accepts w ∨ s.Accepts w
  | .rep r lo hi, w =>
    ∃ ws : List (List α), lo ≤ ws.length ∧ ws.length ≤ hi ∧ (∀ u ∈ ws, r.Accepts u) ∧ w = ws.flatten
  | .wordBoundary, _ => False
  | .notAhead _, _ => False

/-- No assertion anywhere. -/
def Pattern.Plain : Pattern α → Prop
  | .symbol _ => True
  | .seq r s => r.Plain ∧ s.Plain
  | .alt r s => r.Plain ∧ s.Plain
  | .rep r _ _ => r.Plain
  | .wordBoundary => False
  | .notAhead _ => False

/-- The word that lies between two places. -/
def Place.Reads (a : Place α) (w : List α) (b : Place α) : Prop :=
  a.rest = w ++ b.rest ∧ b.prev = w.getLast?.or a.prev

section Classes
variable {p : α → Bool} {s : Pattern α} {c : α} {w : List α}

@[simp] theorem Pattern.not_accepts_symbol_nil : ¬(Pattern.symbol p).Accepts [] := by
  simp [Pattern.Accepts]

@[simp] theorem Pattern.accepts_symbol_cons : (Pattern.symbol p).Accepts (c :: w) ↔ p c = true ∧ w = [] := by
  constructor
  · rintro ⟨d, hd, same⟩
    obtain ⟨rfl, rfl⟩ := List.cons.inj same
    exact ⟨hd, rfl⟩
  · rintro ⟨hc, rfl⟩
    exact ⟨c, hc, rfl⟩

@[simp] theorem Pattern.not_accepts_seq_nil : ¬(Pattern.seq (.symbol p) s).Accepts [] := by
  rintro ⟨u, v, hu, _, none⟩
  obtain ⟨rfl, rfl⟩ := List.append_eq_nil_iff.mp none.symm
  exact not_accepts_symbol_nil hu

@[simp] theorem Pattern.accepts_seq_cons :
    (Pattern.seq (.symbol p) s).Accepts (c :: w) ↔ p c = true ∧ s.Accepts w := by
  constructor
  · rintro ⟨_, v, ⟨d, hd, rfl⟩, hv, same⟩
    obtain ⟨rfl, rfl⟩ := List.cons.inj same
    exact ⟨hd, hv⟩
  · rintro ⟨hc, hw⟩
    exact ⟨[c], w, ⟨c, hc, rfl⟩, hw, rfl⟩

/-- A repeated class accepts by length and membership. -/
theorem Pattern.accepts_rep_symbol {lo hi : Nat} :
    (Pattern.rep (.symbol p) lo hi).Accepts w ↔ lo ≤ w.length ∧ w.length ≤ hi ∧ ∀ c ∈ w, p c = true := by
  have single (cs : List α) : (cs.map fun c => [c]).flatten = cs := by
    induction cs with
    | nil => rfl
    | cons c cs ih => rw [List.map_cons, List.flatten_cons, ih, List.singleton_append]
  constructor
  · rintro ⟨ws, least, most, all, rfl⟩
    obtain ⟨cs, rfl⟩ : ∃ cs : List α, ws = cs.map fun c => [c] := by
      clear least most
      induction ws with
      | nil => exact ⟨[], rfl⟩
      | cons u ws ih =>
        obtain ⟨c, _, rfl⟩ := all u (by simp)
        obtain ⟨cs, rfl⟩ := ih fun v hv => all v (by simp [hv])
        exact ⟨c :: cs, rfl⟩
    rw [List.length_map] at least most
    rw [single]
    refine ⟨least, most, fun c hc => ?_⟩
    exact (accepts_symbol_cons.mp (all [c] (List.mem_map.mpr ⟨c, hc, rfl⟩))).1
  · rintro ⟨least, most, all⟩
    refine ⟨w.map fun c => [c], by simpa using least, by simpa using most, ?_, (single w).symm⟩
    intro u hu
    obtain ⟨c, hc, rfl⟩ := List.mem_map.mp hu
    exact accepts_symbol_cons.mpr ⟨all c hc, rfl⟩

end Classes

section Reads
variable {a b : Place α} {u v w : List α}

theorem Place.reads_nil : a.Reads [] b ↔ a = b := by
  obtain ⟨p, r⟩ := a
  obtain ⟨q, s⟩ := b
  simp [Place.Reads, eq_comm, and_comm]

theorem Place.reads_singleton {c : α} : a.Reads [c] b ↔ a.rest = c :: b.rest ∧ b.prev = some c := by
  simp [Place.Reads]

theorem Place.reads_append : a.Reads (u ++ v) b ↔ ∃ m : Place α, a.Reads u m ∧ m.Reads v b := by
  constructor
  · rintro ⟨text, prev⟩
    refine ⟨⟨u.getLast?.or a.prev, v ++ b.rest⟩, ⟨by rw [text, List.append_assoc], rfl⟩, rfl, ?_⟩
    rw [prev, List.getLast?_append, Option.or_assoc]
  · rintro ⟨m, ⟨text, prev⟩, text', prev'⟩
    exact ⟨by rw [text, text', List.append_assoc],
      by rw [prev', prev, List.getLast?_append, Option.or_assoc]⟩

end Reads

section Matching
variable {word : α → Bool} {a b : Place α}

private theorem mem_stop {lo : Nat} : b ∈ (if lo = 0 then [a] else []) ↔ lo = 0 ∧ a = b := by
  split <;> simp_all [eq_comm]

/-- A step that reads the words of a set reads, repeated, so many of them in a row. -/
private theorem mem_repeated {step : Place α → List (Place α)} {P : List α → Prop}
    (reads : ∀ a b, b ∈ step a ↔ ∃ w, P w ∧ a.Reads w b) (lo hi : Nat) (a b : Place α) :
    b ∈ repeated step lo hi a ↔
      ∃ ws : List (List α), lo ≤ ws.length ∧ ws.length ≤ hi ∧ (∀ u ∈ ws, P u) ∧ a.Reads ws.flatten b := by
  induction hi generalizing lo a with
  | zero =>
    rw [repeated, mem_stop]
    constructor
    · rintro ⟨zero, same⟩
      exact ⟨[], by omega, Nat.le_refl 0, by simp, Place.reads_nil.mpr same⟩
    · rintro ⟨ws, most, none, _, read⟩
      obtain rfl : ws = [] := List.length_eq_zero_iff.mp (by omega)
      exact ⟨by simpa using most, Place.reads_nil.mp read⟩
  | succ hi ih =>
    rw [repeated, List.mem_append, mem_stop, List.mem_flatMap]
    constructor
    · rintro (⟨m, first, more⟩ | ⟨zero, same⟩)
      · obtain ⟨u, hu, read⟩ := (reads a m).mp first
        obtain ⟨ws, least, most, all, rest⟩ := (ih (lo - 1) m).mp more
        refine ⟨u :: ws, by rw [List.length_cons]; omega, by rw [List.length_cons]; omega, ?_, ?_⟩
        · simpa using ⟨hu, all⟩
        · exact Place.reads_append.mpr ⟨m, read, rest⟩
      · exact ⟨[], by omega, by simp, by simp, Place.reads_nil.mpr same⟩
    · rintro ⟨ws, least, most, all, read⟩
      cases ws with
      | nil => exact .inr ⟨by simpa using least, Place.reads_nil.mp read⟩
      | cons u ws =>
        obtain ⟨m, first, rest⟩ := Place.reads_append.mp read
        rw [List.length_cons] at least most
        refine .inl ⟨m, (reads a m).mpr ⟨u, all u (by simp), first⟩, ?_⟩
        exact (ih (lo - 1) m).mpr ⟨ws, by omega, by omega, fun x hx => all x (by simp [hx]), rest⟩

/-- Without assertions the matcher ends exactly behind the accepted words. -/
theorem mem_ends_iff {r : Pattern α} (plain : r.Plain) (a b : Place α) :
    b ∈ ends word r a ↔ ∃ w, r.Accepts w ∧ a.Reads w b := by
  induction r generalizing a b with
  | symbol p =>
    obtain ⟨prev, rest⟩ := a
    cases rest with
    | nil => simp [ends, Pattern.Accepts, Place.Reads]
    | cons c rest =>
      obtain ⟨q, s⟩ := b
      simp only [ends, Pattern.Accepts]
      constructor
      · intro here
        split at here
        · rename_i hc
          simp only [List.mem_singleton, Place.mk.injEq] at here
          exact ⟨[c], ⟨c, hc, rfl⟩, Place.reads_singleton.mpr (by simp [here])⟩
        · exact absurd here List.not_mem_nil
      · rintro ⟨_, ⟨d, hd, rfl⟩, read⟩
        obtain ⟨text, before⟩ := Place.reads_singleton.mp read
        obtain ⟨rfl, rfl⟩ := List.cons.inj text
        simp_all
  | seq r s ihr ihs =>
    simp only [ends, List.mem_flatMap, ihr plain.1, ihs plain.2, Pattern.Accepts]
    constructor
    · rintro ⟨m, ⟨u, hu, first⟩, v, hv, second⟩
      exact ⟨u ++ v, ⟨u, v, hu, hv, rfl⟩, Place.reads_append.mpr ⟨m, first, second⟩⟩
    · rintro ⟨_, ⟨u, v, hu, hv, rfl⟩, read⟩
      obtain ⟨m, first, second⟩ := Place.reads_append.mp read
      exact ⟨m, ⟨u, hu, first⟩, v, hv, second⟩
  | alt r s ihr ihs =>
    simp only [ends, List.mem_append, ihr plain.1, ihs plain.2, Pattern.Accepts, or_and_right, exists_or]
  | rep r lo hi ih =>
    rw [ends, mem_repeated (fun a b => ih plain a b)]
    constructor
    · rintro ⟨ws, least, most, all, read⟩
      exact ⟨_, ⟨ws, least, most, all, rfl⟩, read⟩
    · rintro ⟨_, ⟨ws, least, most, all, rfl⟩, read⟩
      exact ⟨ws, least, most, all, read⟩
  | wordBoundary => exact plain.elim
  | notAhead r _ => exact plain.elim

theorem regexMatch_iff {r : Pattern α} (plain : r.Plain) (text : List α) :
    regexMatch word r text = true ↔ r.Accepts text := by
  simp only [regexMatch, List.any_eq_true, mem_ends_iff plain, List.isEmpty_iff]
  constructor
  · rintro ⟨b, ⟨w, hw, read⟩, done⟩
    obtain rfl : text = w := by simpa [done] using read.1
    exact hw
  · intro accepted
    exact ⟨⟨text.getLast?.or none, []⟩, ⟨text, accepted, by simp [Place.Reads]⟩, rfl⟩

/-- At the end of the text `\b` asks for a word symbol before it, and nothing is ahead. -/
theorem regexMatch_closed_iff {r : Pattern α} (plain : r.Plain) (p : α → Bool) (text : List α) :
    regexMatch word (.seq r (.seq .wordBoundary (.notAhead (.symbol p)))) text = true ↔
      r.Accepts text ∧ text.getLast?.any word = true := by
  simp only [regexMatch, ends, List.any_eq_true, List.mem_flatMap, mem_ends_iff plain, List.isEmpty_iff]
  constructor
  · rintro ⟨b, ⟨m, ⟨w, hw, text', prev⟩, m', boundary, ahead⟩, done⟩
    obtain ⟨inner, rfl⟩ : (m.prev.any word != m.rest.head?.any word) = true ∧ m' = m := by
      split at boundary <;> simp_all
    obtain rfl : b = m' := by
      split at ahead <;> simp_all
    obtain rfl : text = w := by simpa [done] using text'
    refine ⟨hw, ?_⟩
    simpa [done, prev] using inner
  · rintro ⟨accepted, inner⟩
    refine ⟨⟨text.getLast?, []⟩, ⟨⟨text.getLast?, []⟩, ⟨text, accepted, by simp [Place.Reads]⟩,
      ⟨text.getLast?, []⟩, ?_, ?_⟩, rfl⟩
    · simp [inner]
    · simp

end Matching

end Tunosocks.Foundation.Regex
