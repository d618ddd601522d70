import ProtoForge.Bytes

/-!
# Varints

Numbers in groups of seven bits, lowest group first; every byte but the last
carries the high bit. A 64-bit number takes at most ten bytes, of which the
tenth holds a single bit. Reading what was written returns the number and the
bytes after it.
-/
namespace ProtoForge.Wire

/-- The bytes of a number. -/
def encodeVarint (n : Nat) : Bytes :=
  if n < 128 then [UInt8.ofNat n] else UInt8.ofNat (n % 128 + 128) :: encodeVarint (n / 128)
termination_by n
decreasing_by omega

/-- The number at the start of the bytes, which may take `count` bytes of the ten. -/
def decodeVarintWithin : (count : Nat) → Bytes → Option (Nat × Bytes)
  | 0, _ => none
  | _ + 1, [] => none
  | count + 1, b :: rest =>
      if b.toNat < 128 then
        if count = 0 ∧ 2 ≤ b.toNat then none else some (b.toNat, rest)
      else
        match decodeVarintWithin count rest with
        | some (n, r) => some (b.toNat - 128 + 128 * n, r)
        | none => none

/-- The number at the start of the bytes, and what follows it. -/
def decodeVarint (b : Bytes) : Option (Nat × Bytes) := decodeVarintWithin 10 b

theorem decodeVarintWithin_length {count : Nat} {b rest : Bytes} {n : Nat}
    (h : decodeVarintWithin count b = some (n, rest)) : rest.length < b.length := by
  induction count generalizing b n rest with
  | zero => simp [decodeVarintWithin] at h
  | succ count ih =>
      cases b with
      | nil => simp [decodeVarintWithin] at h
      | cons x xs =>
          simp only [decodeVarintWithin] at h
          split at h
          · split at h
            · simp at h
            · simp only [Option.some.injEq, Prod.mk.injEq] at h
              simp [← h.2]
          · split at h
            · rename_i m r hr
              simp only [Option.some.injEq, Prod.mk.injEq] at h
              have := ih hr
              simp only [List.length_cons, ← h.2]
              omega
            · simp at h

theorem decodeVarint_length {b rest : Bytes} {n : Nat} (h : decodeVarint b = some (n, rest)) :
    rest.length < b.length := decodeVarintWithin_length h

end ProtoForge.Wire
