import Mathlib.Data.List.Basic

/-! `tcp_parseopt`: of the options in a TCP header only the maximum segment size is taken. It is the
one the well-formed options at the front announce, whatever follows them. -/
namespace Tunosocks.Lwip

/-- `TCP_MSS` -/
def tcpMss : Nat := 1460

/-- The announced size, limited to `TCP_MSS`; zero would be divided by. -/
def limitMss (mss : Nat) : Nat := if tcpMss < mss ∨ mss = 0 then tcpMss else mss

/-- The loop of `tcp_parseopt`: `mem` is the memory from `tcp_optidx` on, `left` how much of it belongs to the
options. Each round takes one byte at least, and `fuel` is their number. -/
def parseFrom : Nat → List UInt8 → Nat → Nat → Nat
  | 0, _, _, mss => mss
  | fuel + 1, mem, left, mss =>
    if left = 0 then mss
    else if mem.getD 0 0 = 0 then mss
    else if mem.getD 0 0 = 1 then parseFrom fuel (mem.drop 1) (left - 1) mss
    else if mem.getD 0 0 = 2 then
      if mem.getD 1 0 ≠ 4 ∨ left < 4 then mss
      else
        parseFrom fuel (mem.drop 4) (left - 4) (limitMss (256 * (mem.getD 2 0).toNat + (mem.getD 3 0).toNat))
    else if (mem.getD 1 0).toNat < 2 then mss
    else parseFrom fuel (mem.drop (mem.getD 1 0).toNat) (left - (mem.getD 1 0).toNat) mss

/-- `tcp_parseopt` for `optlen` bytes of options: the new value of `pcb->mss`. -/
def tcpParseopt (mem : List UInt8) (optlen mss : Nat) : Nat := parseFrom optlen mem optlen mss

inductive TcpOpt where
  | nop
  | mss (hi lo : UInt8)
  /-- An option with a length, of a kind that is skipped. -/
  | other (kind : UInt8) (payload : List UInt8)
  deriving DecidableEq, Repr

namespace TcpOpt

def Wf : TcpOpt → Prop
  | .other kind payload => kind ≠ 0 ∧ kind ≠ 1 ∧ kind ≠ 2 ∧ payload.length + 2 < 256
  | _ => True

/-- The bytes of an option; `TCP_BUILD_MSS_OPTION` makes those of the second kind. -/
def encode : TcpOpt → List UInt8
  | .nop => [1]
  | .mss hi lo => [2, 4, hi, lo]
  | .other kind payload => kind :: UInt8.ofNat (payload.length + 2) :: payload

def effect (mss : Nat) : TcpOpt → Nat
  | .mss hi lo => limitMss (256 * hi.toNat + lo.toNat)
  | _ => mss

end TcpOpt

def encodeAll (os : List TcpOpt) : List UInt8 := os.flatMap TcpOpt.encode

/-- What a list of options announces: the last size in it. -/
def announced (mss : Nat) (os : List TcpOpt) : Nat := os.foldl TcpOpt.effect mss

/-- No option follows: the end, the end-of-options mark, or something malformed. -/
def Ends (opts : List UInt8) : Prop := opts.head? = some 0 ∨ ∀ o : TcpOpt, o.Wf → ¬ o.encode <+: opts

variable {opts behind : List UInt8} {o : TcpOpt} {fuel left mss : Nat}

private theorem TcpOpt.encode_pos (o : TcpOpt) : 0 < o.encode.length := by
  cases o <;> exact Nat.succ_pos _

private theorem parseFrom_zero (fuel : Nat) (mem : List UInt8) (mss : Nat) : parseFrom fuel mem 0 mss = mss := by
  cases fuel <;> simp [parseFrom]

/-- A round of the loop takes one option. -/
private theorem parseFrom_option (ho : o.Wf) (mem : List UInt8) :
    parseFrom (fuel + 1) (o.encode ++ mem) (o.encode.length + left) mss = parseFrom fuel mem left (o.effect mss) := by
  cases o with
  | nop => simp [parseFrom, TcpOpt.encode, TcpOpt.effect]
  | mss hi lo =>
    have hlen : ¬ 4 + left < 4 := by omega
    simp [parseFrom, TcpOpt.encode, TcpOpt.effect, hlen]
  | other kind payload =>
    obtain ⟨h0, h1, h2, hlen⟩ := ho
    have hbyte : (UInt8.ofNat (payload.length + 2)).toNat = payload.length + 2 := UInt8.toNat_ofNat_of_lt hlen
    have hleft : payload.length + 1 + 1 + left - (payload.length + 2) = left := by omega
    simp only [parseFrom, TcpOpt.encode, TcpOpt.effect, List.cons_append, List.getD_cons_zero, List.getD_cons_succ,
      h0, h1, h2, hbyte, List.length_cons, if_false, List.drop_succ_cons, List.drop_left, hleft]
    rw [if_neg (by omega), if_neg (by omega)]

/-- A length that reaches behind the options ends the loop. -/
private theorem parseFrom_overrun (mem : List UInt8) {n : Nat} (h : left ≤ n) :
    parseFrom fuel mem (left - n) mss = mss := by
  rw [Nat.sub_eq_zero_of_le h, parseFrom_zero]

/-- Where no option follows, the loop ends. The length of an option whose kind is the last byte is read from
behind the options, and makes no difference. -/
private theorem parseFrom_ends (h : Ends opts) (behind : List UInt8) :
    parseFrom fuel (opts ++ behind) opts.length mss = mss := by
  rcases opts with - | ⟨kind, opts⟩
  · exact parseFrom_zero _ _ _
  cases fuel with
  | zero => rfl
  | succ fuel =>
    have hnone (hk : kind ≠ 0) {o : TcpOpt} (ho : o.Wf) (hpre : o.encode <+: kind :: opts) : False :=
      h.resolve_left (by simpa using hk) o ho hpre
    rw [parseFrom, if_neg (by simp)]
    simp only [List.cons_append, List.getD_cons_zero, List.getD_cons_succ, List.length_cons]
    split_ifs with h0 h1 h2 hlen hshort
    · rfl
    · subst h1
      exact (hnone h0 (o := .nop) trivial ⟨opts, rfl⟩).elim
    · rfl
    · subst h2
      rcases opts with - | ⟨len, - | ⟨hi, - | ⟨lo, opts⟩⟩⟩
      iterate 3 simp at hlen
      obtain rfl : len = 4 := by simpa using hlen
      exact (hnone h0 (o := .mss hi lo) trivial ⟨opts, rfl⟩).elim
    · rfl
    · refine parseFrom_overrun _ ?_
      by_contra hle
      rcases opts with - | ⟨len, opts⟩
      · simp only [List.nil_append, List.length_nil] at hle hshort
        omega
      · simp only [List.cons_append, List.getD_cons_zero, List.length_cons] at hle hshort
        have htake : (opts.take (len.toNat - 2)).length = len.toNat - 2 := by
          rw [List.length_take]
          omega
        refine hnone h0 (o := .other kind (opts.take (len.toNat - 2))) ⟨h0, h1, h2, ?_⟩
          ⟨opts.drop (len.toNat - 2), ?_⟩
        · have := len.toNat_lt
          omega
        · rw [TcpOpt.encode, htake, Nat.sub_add_cancel (by omega), UInt8.ofNat_toNat]
          simp

/-- Every byte string starts with well-formed options, up to where none follows. -/
private theorem exists_leading (opts : List UInt8) :
    ∃ os rest, (∀ o ∈ os, TcpOpt.Wf o) ∧ opts = encodeAll os ++ rest ∧ Ends rest := by
  induction hn : opts.length using Nat.strongRecOn generalizing opts with
  | ind n ih =>
    by_cases h : Ends opts
    · exact ⟨[], opts, List.forall_mem_nil _, rfl, h⟩
    · simp only [Ends, not_or, not_forall, not_not] at h
      obtain ⟨-, o, ho, rest, rfl⟩ := h
      have hpos := o.encode_pos
      rw [List.length_append] at hn
      obtain ⟨os, rest, hos, rfl, hends⟩ := ih rest.length (by omega) rest rfl
      exact ⟨o :: os, rest, List.forall_mem_cons.mpr ⟨ho, hos⟩, by simp [encodeAll], hends⟩

private theorem parseFrom_options (os : List TcpOpt) (hos : ∀ o ∈ os, o.Wf) (mem : List UInt8)
    (hfuel : (encodeAll os).length ≤ fuel) : ∃ fuel', parseFrom fuel (encodeAll os ++ mem)
      ((encodeAll os).length + left) mss = parseFrom fuel' mem left (announced mss os) := by
  induction os generalizing fuel mss with
  | nil => exact ⟨fuel, by simp [encodeAll, announced]⟩
  | cons o os ih =>
    obtain ⟨ho, hos⟩ := List.forall_mem_cons.mp hos
    have hpos := o.encode_pos
    have hall : encodeAll (o :: os) = o.encode ++ encodeAll os := rfl
    rw [hall, List.length_append] at hfuel ⊢
    obtain ⟨fuel, rfl⟩ : ∃ m, fuel = m + 1 := ⟨fuel - 1, by omega⟩
    rw [List.append_assoc, Nat.add_assoc, parseFrom_option ho]
    exact ih hos (by omega)

private theorem parseFrom_bounds (fuel : Nat) (mem : List UInt8) (left : Nat) (h : 0 < mss ∧ mss ≤ tcpMss) :
    0 < parseFrom fuel mem left mss ∧ parseFrom fuel mem left mss ≤ tcpMss := by
  induction fuel generalizing mem left mss with
  | zero => exact h
  | succ fuel ih =>
    have hlimit : ∀ m, 0 < limitMss m ∧ limitMss m ≤ tcpMss := fun m => by
      unfold limitMss tcpMss
      split <;> omega
    unfold parseFrom
    split_ifs
    all_goals first | exact h | exact ih _ _ h | exact ih _ _ (hlimit _)

/-- A size is never zero and never above `TCP_MSS`. -/
theorem tcpParseopt_bounds (mem : List UInt8) (optlen : Nat) (h : 0 < mss ∧ mss ≤ tcpMss) :
    0 < tcpParseopt mem optlen mss ∧ tcpParseopt mem optlen mss ≤ tcpMss :=
  parseFrom_bounds optlen mem optlen h

/-- Whatever the options and what lies behind them, the size taken is the one that the well-formed options at the
front announce. -/
theorem parseopt_takes_leading_options (opts : List UInt8) : ∃ os rest, (∀ o ∈ os, TcpOpt.Wf o) ∧
    opts = encodeAll os ++ rest ∧ Ends rest ∧
    ∀ behind mss, tcpParseopt (opts ++ behind) opts.length mss = announced mss os := by
  obtain ⟨os, rest, hos, rfl, hends⟩ := exists_leading opts
  refine ⟨os, rest, hos, rfl, hends, fun behind mss => ?_⟩
  obtain ⟨fuel, heq⟩ := @parseFrom_options _ rest.length mss os hos (rest ++ behind) (Nat.le_add_right _ _)
  rw [tcpParseopt, List.append_assoc, List.length_append, heq, parseFrom_ends hends]

end Tunosocks.Lwip
