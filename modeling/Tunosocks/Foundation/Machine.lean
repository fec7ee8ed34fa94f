import Mathlib.Data.List.Basic

/-! Event-emitting machines, their finite runs, and the induction rules for them.
A step may be refused; an accepted step yields the next state and what was observed. -/
namespace Tunosocks.Foundation

structure Machine (σ α ε : Type) where
  Init : σ → Prop
  step : σ → α → Option (σ × List ε)

structure Transition (σ α ε : Type) where
  pre : σ
  act : α
  out : List ε
  post : σ

namespace Machine
variable {σ α ε : Type} {M : Machine σ α ε}

/-- A run lists the transitions taken from an initial state, oldest first. -/
inductive Run (M : Machine σ α ε) : List (Transition σ α ε) → σ → Prop where
  | init {s : σ} : M.Init s → Run M [] s
  | next {ts : List (Transition σ α ε)} {s t : σ} {a : α} {out : List ε} :
      Run M ts s → M.step s a = some (t, out) → Run M (ts ++ [⟨s, a, out, t⟩]) t

/-- Everything observed along a run. -/
def trace (ts : List (Transition σ α ε)) : List ε := ts.flatMap Transition.out

@[simp] theorem trace_nil : trace ([] : List (Transition σ α ε)) = [] := rfl

@[simp] theorem trace_snoc (ts : List (Transition σ α ε)) (t : Transition σ α ε) :
    trace (ts ++ [t]) = trace ts ++ t.out := by
  simp [trace]

/-- Every transition meets a condition that may look at the events before it. -/
def Along (guard : List ε → Transition σ α ε → Prop) : List ε → List (Transition σ α ε) → Prop
  | _, [] => True
  | tr, t :: ts => guard tr t ∧ Along guard (tr ++ t.out) ts

instance Along.decidable {guard : List ε → Transition σ α ε → Prop} [∀ tr t, Decidable (guard tr t)] :
    (tr : List ε) → (ts : List (Transition σ α ε)) → Decidable (Along guard tr ts)
  | _, [] => isTrue trivial
  | tr, t :: ts => @instDecidableAnd _ _ _ (Along.decidable (tr ++ t.out) ts)

theorem along_snoc {guard : List ε → Transition σ α ε → Prop} {tr : List ε} {ts : List (Transition σ α ε)}
    {t : Transition σ α ε} : Along guard tr (ts ++ [t]) ↔ Along guard tr ts ∧ guard (tr ++ trace ts) t := by
  induction ts generalizing tr with
  | nil => simp [Along]
  | cons u ts ih => simp [Along, ih, trace, and_assoc]

/-- The condition holds up to a transition, and of it. -/
theorem along_upTo {guard : List ε → Transition σ α ε → Prop} {tr : List ε} {us vs : List (Transition σ α ε)}
    {t : Transition σ α ε} (h : Along guard tr (us ++ t :: vs)) : Along guard tr us ∧ guard (tr ++ trace us) t := by
  induction us generalizing tr with
  | nil => exact ⟨trivial, by simpa using h.1⟩
  | cons u us ih =>
    obtain ⟨hus, ht⟩ := ih h.2
    exact ⟨⟨h.1, hus⟩, by simpa [trace] using ht⟩

theorem along_of_forall {guard : Transition σ α ε → Prop} {ts : List (Transition σ α ε)} (h : ∀ t ∈ ts, guard t)
    (tr : List ε) : Along (fun _ => guard) tr ts := by
  induction ts generalizing tr with
  | nil => trivial
  | cons u ts ih => exact ⟨h u List.mem_cons_self, ih (fun t ht => h t (List.mem_cons_of_mem u ht)) _⟩

theorem along_and {guard : List ε → Transition σ α ε → Prop} {guard' : Transition σ α ε → Prop} {tr : List ε}
    {ts : List (Transition σ α ε)} (h : Along guard tr ts) (h' : ∀ t ∈ ts, guard' t) :
    Along (fun tr t => guard tr t ∧ guard' t) tr ts := by
  induction ts generalizing tr with
  | nil => trivial
  | cons u ts ih => exact ⟨⟨h.1, h' u List.mem_cons_self⟩, ih h.2 fun t ht => h' t (List.mem_cons_of_mem u ht)⟩

/-- What one step under a condition preserves, together with the events so far, every
run whose steps all meet the condition preserves. -/
theorem Run.along {ts : List (Transition σ α ε)} {s : σ} (hr : Run M ts s)
    (guard : List ε → Transition σ α ε → Prop) (I : List ε → σ → Prop)
    (initial : ∀ s, M.Init s → I [] s)
    (preserved : ∀ tr s a t out, I tr s → M.step s a = some (t, out) →
      guard tr ⟨s, a, out, t⟩ → I (tr ++ out) t)
    (hg : Along guard [] ts) : I (trace ts) s := by
  induction hr with
  | init hs => exact initial _ hs
  | next hr he ih =>
    rw [trace_snoc]
    obtain ⟨before, last⟩ := along_snoc.mp hg
    exact preserved _ _ _ _ _ (ih before) he last

/-- The same for a condition on the transition alone. -/
theorem Run.guarded_trace {ts : List (Transition σ α ε)} {s : σ} (hr : Run M ts s)
    (guard : Transition σ α ε → Prop) (I : List ε → σ → Prop)
    (initial : ∀ s, M.Init s → I [] s)
    (preserved : ∀ tr s a t out, I tr s → M.step s a = some (t, out) →
      guard ⟨s, a, out, t⟩ → I (tr ++ out) t)
    (hg : ∀ t ∈ ts, guard t) : I (trace ts) s :=
  hr.along (fun _ => guard) I initial preserved (along_of_forall hg [])

theorem Run.invariant_trace {ts : List (Transition σ α ε)} {s : σ} (hr : Run M ts s)
    (I : List ε → σ → Prop) (initial : ∀ s, M.Init s → I [] s)
    (preserved : ∀ tr s a t out, I tr s → M.step s a = some (t, out) → I (tr ++ out) t) :
    I (trace ts) s :=
  hr.guarded_trace (fun _ => True) I initial
    (fun tr s a t out hi he _ => preserved tr s a t out hi he) (fun _ _ => trivial)

/-- An inductive state invariant holds in the last state of every run. -/
theorem Run.invariant {ts : List (Transition σ α ε)} {s : σ} (hr : Run M ts s)
    (I : σ → Prop) (initial : ∀ s, M.Init s → I s)
    (preserved : ∀ s a t out, I s → M.step s a = some (t, out) → I t) : I s :=
  hr.invariant_trace (fun _ => I) initial (fun _ s a t out => preserved s a t out)

/-- A run up to one of its transitions is a run, and the transition a step of the machine. -/
theorem Run.upTo {us vs : List (Transition σ α ε)} {t : Transition σ α ε} {s : σ} (hr : Run M (us ++ t :: vs) s) :
    Run M us t.pre ∧ M.step t.pre t.act = some (t.post, t.out) := by
  generalize whole : us ++ t :: vs = ts at hr
  induction hr generalizing vs with
  | init => simp at whole
  | next hr he ih =>
    rcases List.eq_nil_or_concat vs with rfl | ⟨ws, w, rfl⟩
    · obtain ⟨rfl, last⟩ := List.append_inj' whole rfl
      cases last
      exact ⟨hr, he⟩
    · rw [List.concat_eq_append, ← List.cons_append, ← List.append_assoc] at whole
      exact ih (List.append_inj' whole rfl).1

/-- Every transition of a run is a step of the machine after a shorter run. -/
theorem Run.split {ts : List (Transition σ α ε)} {s : σ} (hr : Run M ts s) {t : Transition σ α ε} (ht : t ∈ ts) :
    ∃ us vs, ts = us ++ t :: vs ∧ Run M us t.pre ∧ M.step t.pre t.act = some (t.post, t.out) := by
  obtain ⟨us, vs, rfl⟩ := List.append_of_mem ht
  exact ⟨us, vs, rfl, hr.upTo⟩

/-- Every transition of a guarded run starts in a state that has the invariant. -/
theorem Run.guarded_pre {ts : List (Transition σ α ε)} {s : σ} (hr : Run M ts s)
    (guard : Transition σ α ε → Prop) (I : σ → Prop) (initial : ∀ s, M.Init s → I s)
    (preserved : ∀ s a t out, I s → M.step s a = some (t, out) → guard ⟨s, a, out, t⟩ → I t)
    (hg : ∀ t ∈ ts, guard t) {t : Transition σ α ε} (ht : t ∈ ts) :
    I t.pre ∧ M.step t.pre t.act = some (t.post, t.out) := by
  obtain ⟨us, vs, rfl, hrun, hstep⟩ := hr.split ht
  refine ⟨?_, hstep⟩
  exact hrun.guarded_trace guard (fun _ => I) initial (fun _ s a t out => preserved s a t out)
    (fun u hu => hg u (List.mem_append_left _ hu))

/-- Two step properties that agree on every invariant state agree on every run. -/
theorem Run.forall_congr {ts : List (Transition σ α ε)} {s : σ} (hr : Run M ts s)
    (I : σ → Prop) (initial : ∀ s, M.Init s → I s)
    (preserved : ∀ s a t out, I s → M.step s a = some (t, out) → I t)
    (P Q : Transition σ α ε → Prop)
    (agree : ∀ s a t out, I s → M.step s a = some (t, out) → (P ⟨s, a, out, t⟩ ↔ Q ⟨s, a, out, t⟩)) :
    (∀ t ∈ ts, P t) ↔ ∀ t ∈ ts, Q t := by
  have pointwise : ∀ t ∈ ts, (P t ↔ Q t) := by
    intro t ht
    obtain ⟨_, _, _, hrun, hstep⟩ := hr.split ht
    exact agree _ _ _ _ (hrun.invariant I initial preserved) hstep
  exact forall₂_congr pointwise

/-- A condition that looks at the events before a transition and one that does not agree on a run
when they agree at each of its steps. -/
theorem Run.along_congr {ts : List (Transition σ α ε)} {s : σ} (hr : Run M ts s)
    (P : List ε → Transition σ α ε → Prop) (Q : Transition σ α ε → Prop)
    (agree : ∀ ts s a t out, Run M ts s → M.step s a = some (t, out) →
      (P (trace ts) ⟨s, a, out, t⟩ ↔ Q ⟨s, a, out, t⟩)) :
    Along P [] ts ↔ ∀ t ∈ ts, Q t := by
  induction hr with
  | init => exact iff_of_true trivial nofun
  | next hr he ih =>
    rw [along_snoc, ih, List.nil_append, agree _ _ _ _ _ hr he, List.forall_mem_append, List.forall_mem_singleton]

/-- Run a list of inputs, refusing as soon as one step is refused. -/
def exec (M : Machine σ α ε) : σ → List α → Option (List (Transition σ α ε) × σ)
  | s, [] => some ([], s)
  | s, a :: rest =>
    match M.step s a with
    | none => none
    | some (t, out) => (exec M t rest).map fun r => (⟨s, a, out, t⟩ :: r.1, r.2)

private theorem exec_from {as : List α} {s t : σ} {ts us : List (Transition σ α ε)}
    (hr : Run M ts s) (he : M.exec s as = some (us, t)) : Run M (ts ++ us) t := by
  induction as generalizing s ts us with
  | nil =>
    simp only [exec, Option.some.injEq, Prod.mk.injEq] at he
    obtain ⟨rfl, rfl⟩ := he
    simpa using hr
  | cons a rest ih =>
    simp only [exec] at he
    cases hs : M.step s a with
    | none => simp [hs] at he
    | some r =>
      simp only [hs, Option.map_eq_some_iff] at he
      obtain ⟨⟨vs, v⟩, hv, hp⟩ := he
      obtain ⟨rfl, rfl⟩ := Prod.mk.inj hp
      simpa using ih (hr.next hs) hv

theorem Run.of_exec {as : List α} {s t : σ} {ts : List (Transition σ α ε)}
    (hs : M.Init s) (he : M.exec s as = some (ts, t)) : Run M ts t := by
  simpa using exec_from (.init hs) he

/-- Executing inputs does not look at the initial states. -/
private theorem exec_from_any (Init : σ → Prop) (s : σ) (as : List α) :
    (⟨Init, M.step⟩ : Machine σ α ε).exec s as = M.exec s as := by
  induction as generalizing s with
  | nil => rfl
  | cons a rest ih => simp only [exec, ih]

/-- What every step preserves, together with the events so far, an executed list of inputs preserves. -/
theorem exec_preserves {as : List α} {s t : σ} {ts : List (Transition σ α ε)} (he : M.exec s as = some (ts, t))
    (I : List ε → σ → Prop) (initial : I [] s)
    (preserved : ∀ tr s a t out, I tr s → M.step s a = some (t, out) → I (tr ++ out) t) : I (trace ts) t := by
  have started : Run ⟨(· = s), M.step⟩ ts t := .of_exec rfl ((exec_from_any _ s as).trans he)
  exact started.invariant_trace I (fun _ h => h ▸ initial) preserved

/-- What holds of an executed list of inputs holds of some run. -/
theorem Run.exists_of_exec (M : Machine σ α ε) (s : σ) (as : List α) (p : List (Transition σ α ε) → σ → Bool)
    (hs : M.Init s) (he : ((M.exec s as).any fun r => p r.1 r.2) = true) : ∃ ts t, Run M ts t ∧ p ts t = true := by
  obtain ⟨⟨ts, t⟩, hr, hp⟩ := (Option.any_eq_true _ _).mp he
  exact ⟨ts, t, .of_exec hs hr, hp⟩

end Machine

/-- A step made of smaller ones: their events in the order in which they happened. -/
inductive Chain {σ ε : Type} (R : σ → List ε → σ → Prop) : σ → List ε → σ → Prop where
  | nil {s : σ} : Chain R s [] s
  | snoc {s t u : σ} {evs evs' : List ε} : Chain R s evs t → R t evs' u → Chain R s (evs ++ evs') u

namespace Chain
variable {σ ε : Type} {R : σ → List ε → σ → Prop}

theorem single {s t : σ} {evs : List ε} (h : R s evs t) : Chain R s evs t := by
  simpa using Chain.snoc .nil h

theorem trans {s t u : σ} {evs evs' : List ε} (first : Chain R s evs t) (second : Chain R t evs' u) :
    Chain R s (evs ++ evs') u := by
  induction second with
  | nil => simpa using first
  | snoc _ last ih =>
    rw [← List.append_assoc]
    exact .snoc ih last

/-- What every small step preserves, together with the events so far, a chain preserves. -/
theorem preserves {s t : σ} {evs : List ε} (chain : Chain R s evs t) (I : List ε → σ → Prop)
    (preserved : ∀ tr s evs t, I tr s → R s evs t → I (tr ++ evs) t) (tr : List ε) (hs : I tr s) :
    I (tr ++ evs) t := by
  induction chain with
  | nil => simpa using hs
  | snoc _ last ih =>
    rw [← List.append_assoc]
    exact preserved _ _ _ _ ih last

theorem keeps {s t : σ} {evs : List ε} (chain : Chain R s evs t) (I : σ → Prop)
    (kept : ∀ s evs t, I s → R s evs t → I t) (hs : I s) : I t :=
  chain.preserves (fun _ => I) (fun _ => kept) [] hs

end Chain
end Tunosocks.Foundation
