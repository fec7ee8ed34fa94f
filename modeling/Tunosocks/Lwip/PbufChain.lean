import Tunosocks.Tcp.Lwip

/-! The operations on chains of packet buffers that segment processing uses, and what
they do to the bytes of the chain. -/
namespace Tunosocks.Lwip
open Tcp

/-- `pbuf_realloc` behind its length test: the buffers before the cut stay, those behind
it are freed. The last buffer always reaches the cut there. -/
def shrinkChain (n : Nat) (payload : List UInt8) : List (List UInt8) → Pbuf
  | [] => ⟨payload.take n, []⟩
  | buf :: next =>
    if payload.length < n then
      let q := shrinkChain (n - payload.length) buf next
      ⟨payload, q.payload :: q.next⟩
    else ⟨payload.take n, []⟩

def pbufRealloc (p : Pbuf) (newLen : Nat) : Pbuf :=
  if p.totLen ≤ newLen then p else shrinkChain newLen p.payload p.next

/-- The loop over `p->len < off` with the `pbuf_remove_header` behind it: the buffers
before the new start stay in the chain, empty. -/
def trimChain (off : Nat) (payload : List UInt8) : List (List UInt8) → Pbuf
  | [] => ⟨payload.drop off, []⟩
  | buf :: next =>
    if payload.length < off then
      let q := trimChain (off - payload.length) buf next
      ⟨[], q.payload :: q.next⟩
    else ⟨payload.drop off, buf :: next⟩

def pbufCat (h t : Pbuf) : Pbuf := ⟨h.payload, h.next ++ t.payload :: t.next⟩

@[simp] private theorem Pbuf.bytes_mk (payload : List UInt8) (next : List (List UInt8)) :
    (⟨payload, next⟩ : Pbuf).bytes = payload ++ next.flatten := rfl

private theorem shrinkChain_bytes (n : Nat) (payload : List UInt8) (next : List (List UInt8)) :
    (shrinkChain n payload next).bytes = (payload ++ next.flatten).take n := by
  induction next generalizing n payload with
  | nil => simp [shrinkChain]
  | cons buf next ih =>
    unfold shrinkChain
    split
    case isTrue h =>
      have hrest := ih (n - payload.length) buf
      simp only [Pbuf.bytes, List.flatten_cons] at hrest ⊢
      rw [hrest]
      conv_rhs => rw [List.take_append, List.take_of_length_le (Nat.le_of_lt h)]
    case isFalse h => simp [List.take_append_of_le_length (Nat.not_lt.mp h)]

@[simp] theorem pbufRealloc_bytes (p : Pbuf) (n : Nat) : (pbufRealloc p n).bytes = p.bytes.take n := by
  unfold pbufRealloc
  split
  case isTrue h => exact (List.take_of_length_le h).symm
  case isFalse => exact shrinkChain_bytes n p.payload p.next

theorem trimChain_bytes (off : Nat) (payload : List UInt8) (next : List (List UInt8)) :
    (trimChain off payload next).bytes = (payload ++ next.flatten).drop off := by
  induction next generalizing off payload with
  | nil => simp [trimChain]
  | cons buf next ih =>
    unfold trimChain
    split
    case isTrue h =>
      have hrest := ih (off - payload.length) buf
      simp only [Pbuf.bytes, List.flatten_cons, List.nil_append] at hrest ⊢
      rw [hrest]
      conv_rhs => rw [List.drop_append, List.drop_of_length_le (Nat.le_of_lt h), List.nil_append]
    case isFalse h => simp [List.drop_append_of_le_length (Nat.not_lt.mp h)]

@[simp] theorem pbufCat_bytes (h t : Pbuf) : (pbufCat h t).bytes = h.bytes ++ t.bytes := by
  simp [pbufCat, Pbuf.bytes]

end Tunosocks.Lwip
