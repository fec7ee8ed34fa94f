import Tunosocks.Udp.Session

/-! The IP header checksum written by a session makes the header sum to all ones. -/
namespace Tunosocks.Udp
open Foundation.Buffer Foundation.OnesComplement Socks5

@[simp] theorem length_hostBytes (n : Nat) : (hostBytes n).length = 2 := rfl
@[simp] theorem length_netBytes (n : Nat) : (netBytes n).length = 2 := rfl

/-- Equal first bytes give equal header lengths. -/
theorem ipHl_congr {mem mem' : List UInt8} {a b : Nat} (h : slice mem a 1 = slice mem' b 1) :
    ipHl mem a = ipHl mem' b := by
  rw [ipHl, ipHl, getD_congr h]

theorem ipHl_writeAt_disjoint {mem data : List UInt8} {ipHeader off : Nat}
    (apart : ipHeader + 1 ≤ off ∨ off + data.length ≤ ipHeader) :
    ipHl (writeAt mem off data) ipHeader = ipHl mem ipHeader :=
  ipHl_congr (slice_writeAt_disjoint apart)

private theorem wordsLE_hostBytes {n : Nat} (h : n < 65536) : (wordsLE (hostBytes n)).sum = n := by
  simp [hostBytes, wordsLE]
  omega

/-- A word that holds the complement of a folded sum makes the words around it sum to all ones exactly when they have
that sum, up to the two zeros. -/
theorem complement_sums_iff {a b : List UInt8} {s : Nat} (ha : a.length % 2 = 0)
    (zero : (wordsLE a).sum + (wordsLE b).sum = 0 → s = 0) :
    onesSum (wordsBE (a ++ hostBytes (65535 - foldCarry s) ++ b)) = 65535 ↔
      ((wordsLE a).sum + (wordsLE b).sum) % 65535 = s % 65535 := by
  have small := residue_lt s
  have total : (wordsLE (a ++ hostBytes (65535 - residue s) ++ b)).sum =
      (wordsLE a).sum + (wordsLE b).sum + (65535 - residue s) := by
    rw [List.append_assoc, wordsLE_append ha, wordsLE_append (by simp), List.sum_append, List.sum_append,
      wordsLE_hostBytes (by omega)]
    omega
  rw [foldCarry_eq_residue, onesSum_wordsBE_eq_max_iff, total]
  unfold residue
  split <;> omega

/-- Replacing a zeroed checksum word by the complement of the folded sum. -/
theorem complement_sums {a b : List UInt8} (ha : a.length % 2 = 0) :
    onesSum (wordsBE (a ++ hostBytes (65535 - foldCarry (wordsLE (a ++ ([0, 0] ++ b))).sum) ++ b)) = 65535 := by
  have zeroed : (wordsLE (a ++ ([0, 0] ++ b))).sum = (wordsLE a).sum + (wordsLE b).sum := by
    rw [wordsLE_append ha, List.sum_append]
    simp [wordsLE]
  rw [zeroed]
  exact (complement_sums_iff ha id).mpr rfl

/-- After `calculateIpCheckSum` the header words sum to all ones, whatever the
header holds. The checksum word lies in every header of five words or more. -/
theorem calculateIpCheckSum_sums {buf : List UInt8} {ipHeader h : Nat} (hh : ipHl buf ipHeader = h) (h5 : 5 ≤ h)
    (room : ipHeader + 4 * h ≤ buf.length) :
    onesSum (wordsBE (slice (calculateIpCheckSum buf ipHeader) ipHeader (4 * h))) = 65535 := by
  have hz : ipHl (writeAt buf (ipHeader + 10) [0, 0]) ipHeader = h :=
    (ipHl_writeAt_disjoint (Or.inl (by omega))).trans hh
  have split (data : List UInt8) (hd : data.length = 2) :
      slice (writeAt buf (ipHeader + 10) data) ipHeader (4 * h) =
        slice buf ipHeader 10 ++ (data ++ slice buf (ipHeader + 12) (4 * h - 12)) := by
    rw [show 4 * h = 10 + (2 + (4 * h - 12)) by omega, ← slice_append, ← slice_append,
      slice_writeAt_disjoint (Or.inl (by omega)), slice_writeAt_same hd.symm (by omega),
      slice_writeAt_disjoint (Or.inr (by omega)), show 10 + (2 + (4 * h - 12)) - 12 = 4 * h - 12 by omega]
  have ha : (slice buf ipHeader 10).length % 2 = 0 := by rw [length_slice_of_le (by omega)]
  have rewritten : slice (calculateIpCheckSum buf ipHeader) ipHeader (4 * h) =
      slice buf ipHeader 10 ++ (hostBytes (65535 - foldCarry
        (wordsLE (slice buf ipHeader 10 ++ ([0, 0] ++ slice buf (ipHeader + 12) (4 * h - 12)))).sum) ++
          slice buf (ipHeader + 12) (4 * h - 12)) := by
    simp only [calculateIpCheckSum, hz, split [0, 0] rfl]
    rw [writeAt_overwrite (by simp), split _ rfl]
  rw [rewritten, ← List.append_assoc]
  exact complement_sums ha

end Tunosocks.Udp
