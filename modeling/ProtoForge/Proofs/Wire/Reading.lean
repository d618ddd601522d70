import ProtoForge.Wire.Decoding
import Mathlib.Algebra.Group.Nat.Defs
import Mathlib.Data.List.TakeWhile

/-!
# Reading what was written

Each reader undoes its writer at the start of any bytes and leaves what follows:
varints below the sixty-fourth power of two, keys, byte strings after their
length, and scalar values of each kind.
-/
namespace ProtoForge.Wire

variable {α β σ : Type} {P Q : Bytes → Prop}

/-- A reader gives a value and leaves the rest of the bytes. -/
def Gives (x : Except DecodeError (α × Subtype P)) (a : α) (rest : Bytes) : Prop :=
  ∃ h, x = .ok (a, ⟨rest, h⟩)

/-- A reader goes on with what another one gave. -/
theorem Gives.bind {x : Except DecodeError (α × Subtype P)}
    {f : α × Subtype P → Except DecodeError (β × Subtype Q)} {a : α} {c : β} {rest rest' : Bytes}
    (hx : Gives x a rest) (hf : ∀ h, Gives (f (a, ⟨rest, h⟩)) c rest') : Gives (x >>= f) c rest' := by
  obtain ⟨h, rfl⟩ := hx
  exact hf h

/-- Words that a kind of numbers can have: they are read as they are. -/
def Kind.Holds (k : Kind) (v : UInt64) : Prop := k.wireType = .varint ∧ k.normalize v.toNat = v

variable {n count limit : ℕ} {b content rest rest' : Bytes} {s s' t : σ} {step : ReadStep σ}
  {k : Kind}

theorem encodeVarint_of_lt (h : n < 128) : encodeVarint n = [UInt8.ofNat n] := by
  rw [encodeVarint, if_pos h]

theorem encodeVarint_of_le (h : 128 ≤ n) :
    encodeVarint n = UInt8.ofNat (n % 128 + 128) :: encodeVarint (n / 128) := by
  rw [encodeVarint, if_neg (by omega)]

/-- A number of seven bits for each byte but the last, and one bit for that, is read back. -/
theorem decodeVarintWithin_encodeVarint (hn : n < 2 * 128 ^ count) (rest : Bytes) :
    decodeVarintWithin (count + 1) (encodeVarint n ++ rest) = some (n, rest) := by
  induction count generalizing n with
  | zero =>
    have hbyte : (UInt8.ofNat n).toNat = n := by simp; omega
    rw [encodeVarint_of_lt (by omega), List.singleton_append, decodeVarintWithin, hbyte,
      if_pos (by omega), if_neg (by omega)]
  | succ count ih =>
    by_cases hsmall : n < 128
    · have hbyte : (UInt8.ofNat n).toNat = n := by simp; omega
      rw [encodeVarint_of_lt hsmall, List.singleton_append, decodeVarintWithin, hbyte,
        if_pos hsmall, if_neg (by omega)]
    · have hbyte : (UInt8.ofNat (n % 128 + 128)).toNat = n % 128 + 128 := by simp; omega
      have hhigh : n / 128 < 2 * 128 ^ count := by rw [Nat.pow_succ] at hn; omega
      rw [encodeVarint_of_le (by omega), List.cons_append, decodeVarintWithin, hbyte,
        if_neg (by omega), ih hhigh]
      simp
      omega

theorem decodeVarint_encodeVarint (hn : n < 2 ^ 64) (rest : Bytes) :
    decodeVarint (encodeVarint n ++ rest) = some (n, rest) :=
  decodeVarintWithin_encodeVarint (by omega : n < 2 * 128 ^ 9) rest

theorem readVarint_encodeVarint (hn : n < 2 ^ 64) (rest : Bytes) :
    Gives (readVarint (encodeVarint n ++ rest)) n rest := by
  have h := decodeVarint_encodeVarint hn rest
  refine ⟨decodeVarint_length h, ?_⟩
  rw [readVarint]
  split
  · rename_i m r hr
    obtain ⟨rfl, rfl⟩ : n = m ∧ rest = r := by simpa [h] using hr
    rfl
  · rename_i hnone
    simp [h] at hnone

theorem readKey_encodeKey (hpos : 0 < n) (hn : n < 2 ^ 29) (w : WireType) (rest : Bytes) :
    Gives (readKey (encodeKey n w ++ rest)) (n, w) rest := by
  have hcode : w.code < 8 := by cases w <;> decide
  have hmod : (8 * n + w.code) % 8 = w.code := by omega
  have hdiv : (8 * n + w.code) / 8 = n := by omega
  have hsize : ¬ Width.size 32 ≤ 8 * n + w.code := by
    rw [Width.size, Nat.shiftLeft_eq]
    omega
  rw [encodeKey]
  refine (readVarint_encodeVarint (by omega) rest).bind fun h => ?_
  dsimp only
  rw [if_neg hsize, hmod, WireType.ofCode?_code, hdiv]
  dsimp only
  rw [if_neg hpos.ne']
  exact ⟨h, rfl⟩

theorem readBytes_append (content rest : Bytes) :
    Gives (readBytes content.length (content ++ rest)) content rest := by
  refine ⟨by simp, ?_⟩
  rw [readBytes, if_pos (by simp)]
  simp

theorem readDelimited_encodeDelimited (hcontent : content.length < 2 ^ 64) (rest : Bytes) :
    Gives (readDelimited (encodeDelimited content ++ rest)) content rest := by
  rw [encodeDelimited, List.append_assoc]
  refine (readVarint_encodeVarint hcontent (content ++ rest)).bind fun h => ?_
  exact (readBytes_append content rest).bind fun h' => ⟨_, rfl⟩

theorem readUntil_of_le (h : b.length ≤ limit) : Gives (readUntil step limit s b) s b := by
  rw [readUntil, if_pos h]
  exact ⟨le_rfl, rfl⟩

/-- One step, and then on until the limit. -/
theorem readUntil_step (hstep : Gives (step s b) s' rest) (hlimit : limit ≤ rest.length)
    (h : Gives (readUntil step limit s' rest) t rest') : Gives (readUntil step limit s b) t rest' := by
  obtain ⟨hshorter, hstep⟩ := hstep
  obtain ⟨hrest, h⟩ := h
  have hlong : ¬ b.length ≤ limit := by omega
  refine ⟨hrest.trans hshorter.le, ?_⟩
  rw [readUntil, if_neg hlong, hstep]
  dsimp only
  rw [h]

/-- A stretch that ends with what its length covers. -/
theorem readStretch_encodeDelimited (hcontent : content.length < 2 ^ 64)
    (h : Gives (readUntil step rest.length s (content ++ rest)) t rest) :
    Gives (readStretch step s (encodeDelimited content ++ rest)) t rest := by
  rw [encodeDelimited, List.append_assoc]
  refine (readVarint_encodeVarint hcontent (content ++ rest)).bind fun h' => ?_
  have hlimit : (content ++ rest).length - content.length = rest.length := by simp
  dsimp only
  rw [if_neg (by simp), hlimit]
  refine h.bind fun h'' => ?_
  dsimp only
  rw [if_neg (by simp)]
  exact ⟨_, rfl⟩

theorem readScalar_text {text : String} (htext : (Bytes.ofText text).length < 2 ^ 64)
    (rest : Bytes) :
    Gives (readScalar .text ((Value.text text).encode ++ rest)) (.text text) rest := by
  rw [Value.encode]
  refine (readDelimited_encodeDelimited htext rest).bind fun h => ?_
  dsimp only
  rw [Bytes.toText?_ofText]
  exact ⟨h, rfl⟩

theorem readScalar_bytes (hcontent : content.length < 2 ^ 64) (rest : Bytes) :
    Gives (readScalar .bytes ((Value.bytes content).encode ++ rest)) (.bytes content) rest := by
  rw [Value.encode]
  exact (readDelimited_encodeDelimited hcontent rest).bind fun h => ⟨h, rfl⟩

theorem littleEndian_ofNat64 (hn : n < 2 ^ 64) : littleEndian (Bytes.ofNat64 n) = n := by
  have hrange : List.range 8 = [0, 1, 2, 3, 4, 5, 6, 7] := rfl
  simp only [Bytes.ofNat64, hrange, littleEndian, List.map_cons, List.map_nil, List.foldr_cons,
    List.foldr_nil, UInt8.toNat_ofNat', Nat.shiftRight_eq_div_pow]
  omega

theorem readScalar_double (bits : UInt64) (rest : Bytes) :
    Gives (readScalar .double ((Value.fixed64 bits).encode ++ rest)) (.fixed64 bits) rest := by
  have hlength := Bytes.length_ofNat64 bits.toNat
  have htake : (Bytes.ofNat64 bits.toNat ++ rest).take 8 = Bytes.ofNat64 bits.toNat :=
    List.take_left' hlength
  have hdrop : (Bytes.ofNat64 bits.toNat ++ rest).drop 8 = rest := List.drop_left' hlength
  rw [Value.encode]
  refine ⟨by rw [List.length_append, hlength]; omega, ?_⟩
  rw [readScalar, dif_pos (by rw [List.length_append, hlength]; omega)]
  simp only [htake, hdrop, littleEndian_ofNat64 bits.toNat_lt, UInt64.ofNat_toNat]

theorem readScalar_varint {v : UInt64} (h : k.Holds v) (rest : Bytes) :
    Gives (readScalar k ((Value.varint v).encode ++ rest)) (.varint v) rest := by
  obtain ⟨hkind, hword⟩ := h
  have hread : Gives (do
      let (n, rest) ← readVarint (encodeWord v ++ rest)
      pure (Value.varint (k.normalize n), rest)) (.varint v) rest := by
    refine (readVarint_encodeVarint v.toNat_lt rest).bind fun h => ?_
    dsimp only
    rw [hword]
    exact ⟨h, rfl⟩
  rw [Value.encode]
  cases k with
  | int32 => exact hread
  | int64 => exact hread
  | uint64 => exact hread
  | bool => exact hread
  | double => cases hkind
  | text => cases hkind
  | bytes => cases hkind
  | message t => cases hkind

end ProtoForge.Wire
