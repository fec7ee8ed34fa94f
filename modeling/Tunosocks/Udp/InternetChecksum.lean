import Tunosocks.Udp.HeaderChecksum

/-! The two checksum loops as they run: a `long` that must not overflow, an odd byte taken from a word load, and a
carry loop that must end. -/
namespace Tunosocks.Udp
open Foundation.Buffer Foundation.OnesComplement Socks5

/-- `+=` on the accumulator. A `long` of 32 bits overflows at 2 ^ 31, and what follows is undefined. -/
def addLong (sum x : Nat) : Option Nat :=
  if sum + x < 2 ^ 31 then some (sum + x) else none

/-- The words from `addr` on. The odd byte is loaded as a word with the byte behind the buffer, and `left_over[0]`
keeps its low half. -/
def sumLoop (behind : UInt8) : List UInt8 → Nat → Option Nat
  | [], sum => some sum
  | [a], sum => addLong sum ((a.toNat + 256 * behind.toNat) % 256)
  | a :: b :: rest, sum => (addLong sum (a.toNat + 256 * b.toNat)).bind (sumLoop behind rest)

/-- `while (sum >> 16)`, for at most this many tests of its condition. -/
def foldLoop : Nat → Nat → Option Nat
  | 0, _ => none
  | rounds + 1, sum =>
    if sum >>> 16 = 0 then some sum else (addLong (sum % 2 ^ 16) (sum >>> 16)).bind (foldLoop rounds)

/-- The body that `getChecksum` and `calculateIpCheckSum` share; `~sum` is kept to its low 16 bits. -/
def checksumLoops (rounds : Nat) (behind : UInt8) (bytes : List UInt8) : Option Nat := do
  let sum ← sumLoop behind bytes 0
  let sum ← foldLoop rounds sum
  return (2 ^ 32 - 1 - sum) % 2 ^ 16

def calculateIpCheckSumLoops (rounds : Nat) (behind : UInt8) (buf : List UInt8) (ipHeader : Nat) :
    Option (List UInt8) := do
  let buf := writeAt buf (ipHeader + 10) [0, 0]
  let word ← checksumLoops rounds behind (slice buf ipHeader (4 * ipHl buf ipHeader))
  return writeAt buf (ipHeader + 10) (hostBytes word)

section Loops
variable {sum x rounds : Nat} {behind : UInt8} {bytes : List UInt8}

private theorem addLong_of_lt (h : sum + x < 2 ^ 31) : addLong sum x = some (sum + x) := if_pos h

/-- While the total leaves room the accumulator holds the exact sum. -/
private theorem sumLoop_eq (h : sum + (wordsLE bytes).sum < 2 ^ 31) :
    sumLoop behind bytes sum = some (sum + (wordsLE bytes).sum) := by
  induction bytes using wordsLE.induct generalizing sum with
  | case1 => rfl
  | case2 a =>
    have low : (a.toNat + 256 * behind.toNat) % 256 = a.toNat := by
      have := a.toNat_lt
      omega
    simp only [wordsLE, List.sum_cons, List.sum_nil, Nat.add_zero] at h
    rw [sumLoop, low, addLong_of_lt h]
    rfl
  | case3 a b rest ih =>
    simp only [wordsLE, List.sum_cons] at h
    rw [sumLoop, addLong_of_lt (by omega), Option.bind_some, ih (by omega), wordsLE, List.sum_cons, Nat.add_assoc]

private theorem foldLoop_done (h : sum < 2 ^ 16) : foldLoop (rounds + 1) sum = some sum := by
  rw [foldLoop, if_pos (by rw [Nat.shiftRight_eq_div_pow]; omega)]

private theorem foldLoop_carry (lo : 2 ^ 16 ≤ sum) (hi : sum < 2 ^ 31) :
    foldLoop (rounds + 1) sum = foldLoop rounds (sum % 2 ^ 16 + sum / 2 ^ 16) := by
  rw [foldLoop, Nat.shiftRight_eq_div_pow, if_neg (by omega), addLong_of_lt (by omega), Option.bind_some]

private theorem foldCarry_done (h : sum < 2 ^ 16) : foldCarry sum = sum := by
  rw [foldCarry, if_pos (by omega)]

private theorem foldCarry_carry (lo : 2 ^ 16 ≤ sum) : foldCarry sum = foldCarry (sum % 2 ^ 16 + sum / 2 ^ 16) := by
  rw [foldCarry, if_neg (by omega)]
  rfl

/-- Two carries are enough for any sum a 32-bit `long` can hold. -/
private theorem foldLoop_eq (h : sum < 2 ^ 31) (enough : 3 ≤ rounds) : foldLoop rounds sum = some (foldCarry sum) := by
  obtain ⟨more, rfl⟩ := Nat.exists_eq_add_of_le' enough
  by_cases none : sum < 2 ^ 16
  · rw [foldLoop_done none, foldCarry_done none]
  rw [foldLoop_carry (by omega) h, foldCarry_carry (by omega)]
  generalize once : sum % 2 ^ 16 + sum / 2 ^ 16 = folded
  by_cases one : folded < 2 ^ 16
  · rw [foldLoop_done one, foldCarry_done one]
  rw [foldLoop_carry (by omega) (by omega), foldCarry_carry (by omega), foldLoop_done (by omega),
    foldCarry_done (by omega)]

/-- The loops end, without overflow, in the value of `getChecksum`. -/
theorem checksumLoops_eq (short : bytes.length ≤ 65535) (enough : 3 ≤ rounds) :
    checksumLoops rounds behind bytes = some (getChecksum bytes) := by
  have room : (wordsLE bytes).sum < 2 ^ 31 := by
    have := sum_wordsLE_le bytes
    omega
  have small := residue_lt (wordsLE bytes).sum
  rw [checksumLoops, sumLoop_eq (by omega), Nat.zero_add]
  simp only [Option.bind_eq_bind, Option.bind_some, foldLoop_eq room enough, foldCarry_eq_residue, getChecksum]
  exact congrArg some (by omega)

/-- A header has at most sixty bytes. -/
private theorem header_loops (behind : UInt8) (buf : List UInt8) (ipHeader : Nat) (enough : 3 ≤ rounds) :
    checksumLoops rounds behind (slice buf ipHeader (4 * ipHl buf ipHeader)) =
      some (getChecksum (slice buf ipHeader (4 * ipHl buf ipHeader))) := by
  apply checksumLoops_eq _ enough
  have := (buf.getD ipHeader 0 &&& 0x0f).toNat_lt
  rw [length_slice, ipHl]
  omega

private theorem ofNat_low (h l : Nat) : UInt8.ofNat (256 * h + l) = UInt8.ofNat l := by
  rw [← UInt8.toNat_inj, UInt8.toNat_ofNat', UInt8.toNat_ofNat']
  omega

private theorem hostBytes_of_halves {h l : Nat} (hl : l < 256) :
    hostBytes (256 * h + l) = [UInt8.ofNat l, UInt8.ofNat h] := by
  rw [hostBytes, ofNat_low, show (256 * h + l) / 256 = h by omega]

private theorem netBytes_of_halves {h l : Nat} (hl : l < 256) :
    netBytes (256 * h + l) = [UInt8.ofNat h, UInt8.ofNat l] := by
  rw [netBytes, ofNat_low, show (256 * h + l) / 256 = h by omega]

theorem getChecksum_eq (bytes : List UInt8) : getChecksum bytes = 65535 - onesSum (wordsLE bytes) := by
  rw [getChecksum, foldCarry_eq_residue, onesSum_eq_residue (wordsLE_lt bytes)]

/-- Stored as the host stores it, the result has the bytes of the checksum in network order. -/
theorem hostBytes_getChecksum (bytes : List UInt8) :
    hostBytes (getChecksum bytes) = netBytes (65535 - onesSum (wordsBE bytes)) := by
  have small : onesSum (wordsLE bytes) < 65536 := by
    rw [onesSum_eq_residue (wordsLE_lt bytes)]
    exact residue_lt _
  have swapped := onesSum_wordsBE bytes
  -- both sums by their two bytes, each complemented on its own
  have halves : 65535 - onesSum (wordsLE bytes) =
      256 * (255 - onesSum (wordsLE bytes) / 256) + (255 - onesSum (wordsLE bytes) % 256) := by omega
  have halves' : 65535 - onesSum (wordsBE bytes) =
      256 * (255 - onesSum (wordsLE bytes) % 256) + (255 - onesSum (wordsLE bytes) / 256) := by omega
  rw [getChecksum_eq, halves, halves', hostBytes_of_halves (by omega), netBytes_of_halves (by omega)]

/-- The result in place of a zero word completes the sum. -/
theorem onesSum_store_getChecksum {off : Nat} (even : off % 2 = 0) (zero : slice bytes off 2 = [0, 0]) :
    onesSum (wordsBE (writeAt bytes off (hostBytes (getChecksum bytes)))) = 65535 := by
  have inside : off + 2 ≤ bytes.length := by
    have := congrArg List.length zero
    simp only [length_slice, List.length_cons, List.length_nil] at this
    omega
  have held : bytes = bytes.take off ++ ([0, 0] ++ bytes.drop (off + 2)) := by
    rw [← zero, slice, ← List.drop_drop, List.take_append_drop, List.take_append_drop]
  rw [writeAt_split (by simpa using inside), length_hostBytes, ← List.append_assoc, getChecksum]
  nth_rewrite 2 [held]
  apply complement_sums
  rw [List.length_take, Nat.min_eq_left (by omega), even]

end Loops

/-- For a buffer of up to 65535 bytes, and whatever byte lies behind it, the loops end without overflow in the
complement of the one's-complement sum, in either byte order; stored in place of a zero word it completes the sum; and
the header checksum is the same function of the header with its field zeroed. -/
theorem checksum_loops_internet {bytes : List UInt8} {rounds : Nat} (short : bytes.length ≤ 65535)
    (enough : 3 ≤ rounds) (behind : UInt8) :
    (∃ chk, checksumLoops rounds behind bytes = some chk ∧ chk = 65535 - onesSum (wordsLE bytes) ∧
      hostBytes chk = netBytes (65535 - onesSum (wordsBE bytes)) ∧
      ∀ off, off % 2 = 0 → slice bytes off 2 = [0, 0] →
        onesSum (wordsBE (writeAt bytes off (hostBytes chk))) = 0xFFFF ∧
          onesSum (wordsLE (writeAt bytes off (hostBytes chk))) = 0xFFFF) ∧
    ∀ buf ipHeader, ∃ word,
      checksumLoops rounds behind (slice (writeAt buf (ipHeader + 10) [0, 0]) ipHeader
        (4 * ipHl (writeAt buf (ipHeader + 10) [0, 0]) ipHeader)) = some word ∧
      calculateIpCheckSumLoops rounds behind buf ipHeader =
        some (writeAt (writeAt buf (ipHeader + 10) [0, 0]) (ipHeader + 10) (hostBytes word)) ∧
      calculateIpCheckSumLoops rounds behind buf ipHeader = some (calculateIpCheckSum buf ipHeader) := by
  constructor
  · refine ⟨_, checksumLoops_eq short enough, getChecksum_eq bytes, hostBytes_getChecksum bytes, ?_⟩
    intro off even zero
    have complete := onesSum_store_getChecksum even zero
    exact ⟨complete, (onesSum_wordsLE_eq_max_iff _).mpr complete⟩
  · intro buf ipHeader
    have ended := header_loops behind (writeAt buf (ipHeader + 10) [0, 0]) ipHeader enough
    have stored : calculateIpCheckSumLoops rounds behind buf ipHeader = some (calculateIpCheckSum buf ipHeader) := by
      simp only [calculateIpCheckSumLoops, ended, Option.bind_eq_bind, Option.bind_some]
      rfl
    exact ⟨_, ended, stored, stored⟩

/-- Two words, the second of them zero: the checksum of `fe ff` is `01 00`. -/
theorem checksum_loops_internet_store : ([0xfe, 0xff, 0, 0] : List UInt8).length ≤ 65535 ∧ 3 ≤ 3 ∧
    checksumLoops 3 7 [0xfe, 0xff, 0, 0] = some 1 ∧
    onesSum (wordsBE (writeAt [0xfe, 0xff, 0, 0] 2 (hostBytes 1))) = 0xFFFF := by
  obtain ⟨⟨chk, ended, _, _, complete⟩, _⟩ := checksum_loops_internet
    (show ([0xfe, 0xff, 0, 0] : List UInt8).length ≤ 65535 by decide) (le_refl 3) 7
  have value : checksumLoops 3 7 [0xfe, 0xff, 0, 0] = some 1 := by decide
  obtain rfl : chk = 1 := Option.some.inj (ended.symm.trans value)
  exact ⟨by decide, le_refl 3, value, (complete 2 rfl rfl).1⟩

end Tunosocks.Udp
