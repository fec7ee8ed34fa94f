import Mathlib.Data.List.Nodup
import Mathlib.Logic.Function.Basic

/-! Singly linked lists in memory: a pointer to the first node and the pointer from each node to the
next one. Loops over such a list are given a number of rounds, since nothing makes them end. -/
namespace Tunosocks.Foundation.LinkedList

variable {α : Type} {next : α → Option α} {head : Option α} {a p : α} {l l' : List α}

/-- Following the pointers from `head` visits the nodes of a list, in its order, and ends. -/
def Links (next : α → Option α) : Option α → List α → Prop
  | head, [] => head = none
  | head, a :: l => head = some a ∧ Links next (next a) l

theorem Links.unique (links : Links next head l) (links' : Links next head l') : l = l' := by
  induction l generalizing head l' with
  | nil =>
    cases l' with
    | nil => rfl
    | cons b l' => cases links.symm.trans links'.1
  | cons a l ih =>
    cases l' with
    | nil => cases links'.symm.trans links.1
    | cons b l' =>
      cases links.1.symm.trans links'.1
      rw [ih links.2 links'.2]

/-- A list from one of its nodes on. -/
theorem Links.from (links : Links next head (l ++ a :: l')) : Links next (some a) (a :: l') := by
  induction l generalizing head with
  | nil => exact ⟨rfl, links.2⟩
  | cons b l ih => exact ih links.2

theorem Links.nodup (links : Links next head l) : l.Nodup := by
  induction l generalizing head with
  | nil => exact List.nodup_nil
  | cons a l ih =>
    refine List.nodup_cons.mpr ⟨fun again => ?_, ih links.2⟩
    -- from the second occurrence on the list is both its tail and the whole
    obtain ⟨before, after, rfl⟩ := List.append_of_mem again
    have whole : Links next (some a) (a :: (before ++ a :: after)) := ⟨rfl, links.2⟩
    have same := (Links.from links.2).unique whole
    have length := congrArg List.length same
    simp only [List.length_cons, List.length_append] at length
    omega

/-- The pointers of other nodes do not matter. -/
theorem Links.congr {next' : α → Option α} (links : Links next head l) (same : ∀ b ∈ l, next' b = next b) :
    Links next' head l := by
  induction l generalizing head with
  | nil => exact links
  | cons b l ih =>
    refine ⟨links.1, ?_⟩
    rw [same b List.mem_cons_self]
    exact ih links.2 fun c hc => same c (List.mem_cons_of_mem b hc)

/-- A node that points to itself heads no list. -/
theorem not_links_of_loop (loop : next a = some a) : ¬ Links next (some a) l := by
  intro links
  cases l with
  | nil => cases links
  | cons b l =>
    obtain rfl : a = b := Option.some.inj links.1
    have tail : Links next (some a) l := loop ▸ links.2
    have length := congrArg List.length (links.unique tail)
    simp at length

section Updates
variable [DecidableEq α]

theorem Links.update (links : Links next head l) (absent : a ∉ l) (v : Option α) :
    Links (Function.update next a v) head l := by
  refine links.congr fun b hb => Function.update_of_ne ?_ _ _
  rintro rfl
  exact absent hb

/-- A node is put in front. -/
theorem Links.push (links : Links next head l) (absent : a ∉ l) :
    Links (Function.update next a head) (some a) (a :: l) := by
  refine ⟨rfl, ?_⟩
  rw [Function.update_self]
  exact links.update absent head

/-- A node is taken out by the pointer of the one before it. -/
theorem Links.unlink (links : Links next head (l ++ p :: a :: l')) :
    Links (Function.update next p (next a)) head (l ++ p :: l') := by
  have once := links.nodup
  induction l generalizing head with
  | nil =>
    refine ⟨links.1, ?_⟩
    rw [Function.update_self]
    refine links.2.2.update (fun again => ?_) (next a)
    exact (List.nodup_cons.mp once).1 (List.mem_cons_of_mem a again)
  | cons b l ih =>
    have other : b ≠ p := by
      rintro rfl
      exact (List.nodup_cons.mp once).1 (List.mem_append_right l List.mem_cons_self)
    refine ⟨links.1, ?_⟩
    rw [Function.update_of_ne other]
    exact ih links.2 (List.nodup_cons.mp once).2

/-- What is done to a node that a search has found, given the node before it: it becomes the first one. -/
def moveToFront (next : α → Option α) (head prev : Option α) (a : α) : (α → Option α) × Option α :=
  match prev with
  | none => (next, head)
  | some p => (Function.update (Function.update next p (next a)) a head, some a)

private theorem erase_middle (once : (l ++ a :: l').Nodup) : (l ++ a :: l').erase a = l ++ l' := by
  have absent : a ∉ l := fun mem =>
    (List.nodup_cons.mp (List.nodup_middle.mp once)).1 (List.mem_append_left l' mem)
  rw [List.erase_append_right _ absent, List.erase_cons_head]

theorem Links.moveToFront (links : Links next head (l ++ a :: l')) :
    Links (LinkedList.moveToFront next head l.getLast? a).1 (LinkedList.moveToFront next head l.getLast? a).2
      (a :: (l ++ a :: l').erase a) := by
  rw [erase_middle links.nodup]
  rcases List.eq_nil_or_concat' l with rfl | ⟨before, p, rfl⟩
  · exact links
  · have once := links.nodup
    rw [List.getLast?_concat]
    rw [List.append_assoc, List.singleton_append] at links
    rw [List.append_assoc, List.singleton_append]
    refine links.unlink.push fun again => ?_
    rw [← List.singleton_append, ← List.append_assoc] at again
    rw [List.nodup_middle] at once
    exact (List.nodup_cons.mp once).1 again

/-- The pointers of nodes of other lists stay. -/
theorem moveToFront_frame {b : α} (other : b ∉ l ++ a :: l') :
    (moveToFront next head l.getLast? a).1 b = next b := by
  rcases List.eq_nil_or_concat' l with rfl | ⟨before, p, rfl⟩
  · rfl
  · rw [List.getLast?_concat]
    refine (Function.update_of_ne ?_ _ _).trans (Function.update_of_ne ?_ _ _)
    · rintro rfl
      exact other (by simp)
    · rintro rfl
      exact other (by simp)

/-- With the node itself for the one before it, it ends up pointing to itself. -/
theorem moveToFront_self : moveToFront next (some a) (some a) a = (Function.update next a (some a), some a) := by
  rw [moveToFront, Function.update_idem]

end Updates

/-! ### Loops over a list -/

/-- Search for a node that passes a test, keeping the node before. There is no result while
the search is still under way after the given number of rounds. -/
def scan (next : α → Option α) (test : α → Bool) : Nat → Option α → Option α → Option (Option α × Option α)
  | 0, _, _ => none
  | _ + 1, prev, none => some (prev, none)
  | rounds + 1, prev, some a => if test a then some (prev, some a) else scan next test rounds (some a) (next a)

/-- Visit all nodes, each with what has been made of the state so far. -/
def walk {σ : Type} (next : α → Option α) (visit : α → σ → σ) : Nat → Option α → σ → Option σ
  | 0, _, _ => none
  | _ + 1, none, s => some s
  | rounds + 1, some a, s => walk next visit rounds (next a) (visit a s)

variable {test : α → Bool} {rounds : Nat} {prev : Option α}

private theorem exists_succ {n : Nat} (enough : n < rounds) : ∃ m, rounds = m + 1 :=
  Nat.exists_eq_add_one_of_ne_zero (Nat.ne_zero_of_lt enough)

theorem scan_hit (links : Links next head (l ++ a :: l')) (hit : test a = true) (missed : ∀ b ∈ l, test b = false)
    (enough : l.length < rounds) : scan next test rounds prev head = some (l.getLast?.or prev, some a) := by
  induction l generalizing head prev rounds with
  | nil =>
    obtain ⟨rounds, rfl⟩ := exists_succ enough
    rw [links.1, scan, if_pos hit]
    rfl
  | cons b l ih =>
    obtain ⟨rounds, rfl⟩ := exists_succ enough
    have miss : test b ≠ true := by simp [missed b List.mem_cons_self]
    rw [links.1, scan, if_neg miss,
      ih links.2 (fun c hc => missed c (List.mem_cons_of_mem b hc)) (Nat.lt_of_succ_lt_succ enough)]
    cases l with
    | nil => rfl
    | cons c l => simp [List.getLast?_eq_some_getLast]

theorem scan_miss (links : Links next head l) (missed : ∀ b ∈ l, test b = false) (enough : l.length < rounds) :
    ∃ last, scan next test rounds prev head = some (last, none) := by
  induction l generalizing head prev rounds with
  | nil =>
    obtain ⟨rounds, rfl⟩ := exists_succ enough
    cases links
    exact ⟨prev, rfl⟩
  | cons b l ih =>
    obtain ⟨rounds, rfl⟩ := exists_succ enough
    have miss : test b ≠ true := by simp [missed b List.mem_cons_self]
    rw [links.1, scan, if_neg miss]
    exact ih links.2 (fun c hc => missed c (List.mem_cons_of_mem b hc)) (Nat.lt_of_succ_lt_succ enough)

/-- A search over a list finds the first node that passes, with the node before it, or none does. -/
theorem scan_cases (links : Links next head l) (test : α → Bool) (enough : l.length < rounds) :
    (∃ before a after, l = before ++ a :: after ∧ test a = true ∧ (∀ b ∈ before, test b = false) ∧
      scan next test rounds none head = some (before.getLast?, some a)) ∨
    ((∀ b ∈ l, test b = false) ∧ ∃ last, scan next test rounds none head = some (last, none)) := by
  cases found : l.find? test with
  | none =>
    have missed : ∀ b ∈ l, test b = false := by simpa using found
    exact .inr ⟨missed, scan_miss links missed enough⟩
  | some a =>
    obtain ⟨hit, before, after, rfl, missed⟩ := List.find?_eq_some_iff_append.mp found
    have first : ∀ b ∈ before, test b = false := by simpa using missed
    have short : before.length < rounds := by
      rw [List.length_append] at enough
      omega
    refine .inl ⟨before, a, after, rfl, hit, first, ?_⟩
    rw [scan_hit links hit first short, Option.or_none]

theorem walk_links {σ : Type} {visit : α → σ → σ} (links : Links next head l) (s : σ) (enough : l.length < rounds) :
    walk next visit rounds head s = some (l.foldl (fun s a => visit a s) s) := by
  induction l generalizing head rounds s with
  | nil =>
    obtain ⟨rounds, rfl⟩ := exists_succ enough
    cases links
    rfl
  | cons b l ih =>
    obtain ⟨rounds, rfl⟩ := exists_succ enough
    rw [links.1, walk, ih links.2 _ (Nat.lt_of_succ_lt_succ enough), List.foldl_cons]

theorem scan_loop (loop : next a = some a) (miss : test a = false) (rounds : Nat) (prev : Option α) :
    scan next test rounds prev (some a) = none := by
  induction rounds generalizing prev with
  | zero => rfl
  | succ rounds ih => rw [scan, if_neg (by simp [miss]), loop, ih]

theorem walk_loop {σ : Type} {visit : α → σ → σ} (loop : next a = some a) (rounds : Nat) (s : σ) :
    walk next visit rounds (some a) s = none := by
  induction rounds generalizing s with
  | zero => rfl
  | succ rounds ih => rw [walk, loop, ih]

/-! ### Removal -/

section Removal
variable [DecidableEq α]

/-- Take a node out of a list: the first one by the head, any other by the node whose pointer leads to it. -/
def remove (next : α → Option α) (head : Option α) (a : α) (rounds : Nat) : Option ((α → Option α) × Option α) :=
  if head = some a then some (Function.update next a none, next a)
  else
    (scan next (fun p => next p == some a) rounds none head).map fun
      | (_, some p) => (Function.update (Function.update next p (next a)) a none, head)
      | (_, none) => (Function.update next a none, head)

private theorem scan_before {b : α} (prev : Option α) (links : Links next (some b) (b :: l ++ a :: l'))
    (enough : l.length < rounds) : ∃ before p prev', b :: l = before ++ [p] ∧
      scan next (fun p => next p == some a) rounds prev (some b) = some (prev', some p) := by
  induction l generalizing b prev rounds with
  | nil =>
    obtain ⟨rounds, rfl⟩ := exists_succ enough
    have last : next b = some a := links.2.1
    exact ⟨[], b, prev, rfl, by simp [scan, last]⟩
  | cons c l ih =>
    obtain ⟨rounds, rfl⟩ := exists_succ enough
    have follows : next b = some c := links.2.1
    have other : c ≠ a := by
      rintro rfl
      exact (List.nodup_cons.mp links.2.nodup).1 (List.mem_append_right l List.mem_cons_self)
    have tail : Links next (some c) (c :: l ++ a :: l') := follows ▸ links.2
    obtain ⟨before, p, prev', eq, found⟩ := ih (some b) tail (Nat.lt_of_succ_lt_succ enough)
    refine ⟨b :: before, p, prev', by rw [eq]; rfl, ?_⟩
    rw [scan, if_neg (by simp [follows, other]), follows, found]

/-- A removal takes the one node out and leaves the pointers of all nodes of other lists alone. -/
theorem Links.remove {nodes : List α} (links : Links next head nodes) (mem : a ∈ nodes)
    (enough : nodes.length < rounds) :
    ∃ next' head', LinkedList.remove next head a rounds = some (next', head') ∧ Links next' head' (nodes.erase a) ∧
      ∀ b ∉ nodes, next' b = next b := by
  have once := links.nodup
  obtain ⟨l, l', rfl⟩ := List.append_of_mem mem
  rw [erase_middle once]
  have gone : a ∉ l ++ l' := (List.nodup_cons.mp (List.nodup_middle.mp once)).1
  cases l with
  | nil =>
    refine ⟨_, _, if_pos links.1, links.2.update gone none, fun b hb => Function.update_of_ne ?_ _ _⟩
    rintro rfl
    exact hb List.mem_cons_self
  | cons b l =>
    have other : b ≠ a := by
      rintro rfl
      exact gone List.mem_cons_self
    obtain rfl : head = some b := links.1
    have short : l.length < rounds := by
      simp only [List.cons_append, List.length_cons, List.length_append] at enough
      omega
    obtain ⟨before, p, prev', eq, found⟩ := scan_before none links short
    refine ⟨Function.update (Function.update next p (next a)) a none, some b, ?_, ?_, ?_⟩
    · rw [LinkedList.remove, if_neg (by simpa using other), found]
      rfl
    · rw [eq, List.append_assoc, List.singleton_append] at links gone ⊢
      exact links.unlink.update gone none
    · intro c hc
      rw [eq] at hc
      rw [Function.update_of_ne, Function.update_of_ne]
      · rintro rfl
        exact hc (by simp)
      · rintro rfl
        exact hc (by simp)

end Removal

end Tunosocks.Foundation.LinkedList
