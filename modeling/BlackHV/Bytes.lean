import Mathlib.Algebra.Group.Nat.Defs

/-! # Bytes and words

Words put together from bytes, as sums and as the shifts and unions that C programs
write, and the bytes taken out of them again.
-/
namespace Bytes

/-- The 16-bit word with the low byte first. -/
def leWord (lo hi : UInt8) : UInt16 := UInt16.ofNat (lo.toNat + 2 ^ 8 * hi.toNat)

/-- The number that four bytes are, the high byte first. -/
def be32 (b₃ b₂ b₁ b₀ : UInt8) : Nat :=
  b₀.toNat + 2 ^ 8 * b₁.toNat + 2 ^ 16 * b₂.toNat + 2 ^ 24 * b₃.toNat

theorem leWord_eq_or (lo hi : UInt8) : lo.toUInt16 ||| (hi.toUInt16 <<< 8) = leWord lo hi := by
  apply UInt16.toNat_inj.mp
  have hl := lo.toNat_lt
  have hh := hi.toNat_lt
  rw [UInt16.toNat_or, UInt16.toNat_shiftLeft, UInt8.toNat_toUInt16, UInt8.toNat_toUInt16, leWord,
    UInt16.toNat_ofNat', Nat.or_comm]
  show (hi.toNat <<< 8 % 2 ^ 16) ||| lo.toNat = _
  rw [Nat.mod_eq_of_lt (by rw [Nat.shiftLeft_eq]; omega), ← Nat.shiftLeft_add_eq_or_of_lt hl,
    Nat.shiftLeft_eq, Nat.mod_eq_of_lt (by omega), Nat.add_comm, Nat.mul_comm]

@[simp] theorem low_leWord (lo hi : UInt8) : (leWord lo hi).toUInt8 = lo := by
  apply UInt8.toNat_inj.mp
  have hl := lo.toNat_lt
  have hh := hi.toNat_lt
  rw [UInt16.toNat_toUInt8, leWord, UInt16.toNat_ofNat']
  omega

@[simp] theorem high_leWord (lo hi : UInt8) : (leWord lo hi >>> 8).toUInt8 = hi := by
  apply UInt8.toNat_inj.mp
  have hl := lo.toNat_lt
  have hh := hi.toNat_lt
  rw [UInt16.toNat_toUInt8, UInt16.toNat_shiftRight, leWord, UInt16.toNat_ofNat']
  show (_ % _) >>> 8 % _ = _
  rw [Nat.shiftRight_eq_div_pow]
  omega

/-- A word is its two bytes. -/
theorem leWord_inj {lo hi lo' hi' : UInt8} :
    leWord lo hi = leWord lo' hi' ↔ lo = lo' ∧ hi = hi' := by
  constructor
  · intro h
    have hl := congrArg UInt16.toUInt8 h
    have hh := congrArg (fun w : UInt16 => (w >>> 8).toUInt8) h
    simp only [low_leWord, high_leWord] at hl hh
    exact ⟨hl, hh⟩
  · rintro ⟨rfl, rfl⟩
    rfl

/-- What both bytes of each word have, every byte has. -/
theorem forall_words_iff {P : Nat → Prop} {n : Nat} :
    (∀ j, j < n → P (2 * j) ∧ P (2 * j + 1)) ↔ ∀ i, i < 2 * n → P i := by
  constructor
  · intro h i hi
    obtain ⟨hlo, hhi⟩ := h (i / 2) (by omega)
    rcases Nat.mod_two_eq_zero_or_one i with hm | hm
    · rwa [show 2 * (i / 2) = i by omega] at hlo
    · rwa [show 2 * (i / 2) + 1 = i by omega] at hhi
  · intro h j hj
    exact ⟨h (2 * j) (by omega), h (2 * j + 1) (by omega)⟩

/-- The word that the two bytes of a word are. -/
@[simp] theorem leWord_low_high (w : UInt16) : leWord w.toUInt8 (w >>> 8).toUInt8 = w := by
  apply UInt16.toNat_inj.mp
  have hw := w.toNat_lt
  have hhi : (w >>> 8).toNat = w.toNat / 2 ^ 8 := by
    rw [UInt16.toNat_shiftRight]
    exact Nat.shiftRight_eq_div_pow _ 8
  rw [leWord, UInt16.toNat_ofNat', UInt16.toNat_toUInt8, UInt16.toNat_toUInt8, hhi]
  omega

/-- A byte moved up by less than four bytes loses no bit. -/
theorem toNat_shiftLeft_of_lt (b : UInt8) {k : UInt32} (hk : k.toNat ≤ 24) :
    (b.toUInt32 <<< k).toNat = b.toNat * 2 ^ k.toNat := by
  have hb := b.toNat_lt
  have hle : b.toNat * 2 ^ k.toNat ≤ 255 * 2 ^ 24 :=
    Nat.mul_le_mul (by omega) (Nat.pow_le_pow_right (by decide) hk)
  rw [UInt32.toNat_shiftLeft, UInt8.toNat_toUInt32, Nat.mod_eq_of_lt (show k.toNat < 32 by omega),
    Nat.shiftLeft_eq, Nat.mod_eq_of_lt (by omega)]

/-- The union of four shifted bytes is their sum. -/
theorem be32_eq_or (b₃ b₂ b₁ b₀ : UInt8) :
    (b₀.toUInt32 ||| (b₁.toUInt32 <<< 8) ||| (b₂.toUInt32 <<< 16) |||
      (b₃.toUInt32 <<< 24)).toNat = be32 b₃ b₂ b₁ b₀ := by
  have h₀ := b₀.toNat_lt
  have h₁ := b₁.toNat_lt
  have h₂ := b₂.toNat_lt
  have hs₁ : (b₁.toUInt32 <<< 8).toNat = b₁.toNat <<< 8 := by
    rw [toNat_shiftLeft_of_lt b₁ (by decide), Nat.shiftLeft_eq]
    rfl
  have hs₂ : (b₂.toUInt32 <<< 16).toNat = b₂.toNat <<< 16 := by
    rw [toNat_shiftLeft_of_lt b₂ (by decide), Nat.shiftLeft_eq]
    rfl
  have hs₃ : (b₃.toUInt32 <<< 24).toNat = b₃.toNat <<< 24 := by
    rw [toNat_shiftLeft_of_lt b₃ (by decide), Nat.shiftLeft_eq]
    rfl
  rw [UInt32.toNat_or, UInt32.toNat_or, UInt32.toNat_or, hs₁, hs₂, hs₃, UInt8.toNat_toUInt32,
    Nat.or_comm b₀.toNat, ← Nat.shiftLeft_add_eq_or_of_lt h₀,
    Nat.or_comm _ (b₂.toNat <<< 16),
    ← Nat.shiftLeft_add_eq_or_of_lt (by rw [Nat.shiftLeft_eq]; omega),
    Nat.or_comm _ (b₃.toNat <<< 24),
    ← Nat.shiftLeft_add_eq_or_of_lt (by simp only [Nat.shiftLeft_eq]; omega)]
  simp only [Nat.shiftLeft_eq, be32]
  omega

/-- A signed 32-bit number survives the way through a 64-bit pointer. -/
theorem int32_roundtrip (x : Int32) : x.toInt64.toUInt64.toUInt32.toInt32 = x := by
  apply Int32.toBitVec_inj.mp
  simp only [UInt32.toBitVec_toInt32, UInt64.toBitVec_toUInt32, Int64.toBitVec_toUInt64,
    Int32.toBitVec_toInt64]
  ext i hi
  rw [BitVec.getElem_setWidth, BitVec.getLsbD_signExtend]
  simp [hi]
  omega

/-! ## Numbers of any length -/

/-- The first `count` bytes of a number, the low byte first. -/
def le : Nat → Nat → List UInt8
  | 0, _ => []
  | count + 1, n => UInt8.ofNat n :: le count (n / 256)

/-- The number that bytes are, the low byte first. -/
def ofLe : List UInt8 → Nat
  | [] => 0
  | b :: rest => b.toNat + 256 * ofLe rest

@[simp] theorem length_le (count n : Nat) : (le count n).length = count := by
  induction count generalizing n with
  | zero => rfl
  | succ count ih => exact congrArg (· + 1) (ih (n / 256))

theorem ofLe_lt (bytes : List UInt8) : ofLe bytes < 256 ^ bytes.length := by
  induction bytes with
  | nil => exact Nat.one_pos
  | cons b rest ih =>
      have hb := b.toNat_lt
      rw [ofLe, List.length_cons, Nat.pow_succ']
      omega

/-- The bytes of a number are the number again, as far as they reach. -/
theorem ofLe_le_mod (count n : Nat) : ofLe (le count n) = n % 256 ^ count := by
  induction count generalizing n with
  | zero => exact (Nat.mod_one n).symm
  | succ count ih =>
      have hsplit : n % (256 * 256 ^ count) = n % 256 + 256 * (n / 256 % 256 ^ count) := Nat.mod_mul
      have hpow : 256 ^ (count + 1) = 256 * 256 ^ count := Nat.pow_succ'
      rw [le, ofLe, ih, UInt8.toNat_ofNat', hpow, hsplit]

theorem ofLe_le {count n : Nat} (h : n < 256 ^ count) : ofLe (le count n) = n := by
  rw [ofLe_le_mod, Nat.mod_eq_of_lt h]

end Bytes
