import TKNC.Difficulty.Rules

/-!
# CompactTarget — what is lost when a target is written as `nBits`

A target is encoded with its leading fifteen to twenty-three bits.  Decoding gives a target that is
a little smaller, that is encoded by the same word, and that `DeriveTarget` accepts.  The order of
targets is kept.
-/

namespace TKNC.Difficulty

open Arith Lib.CompactFloat

section Flags

variable {c : BitVec 32} {size word : Nat}

theorem fields_of_eq (hc : c.toNat = size * 2 ^ 24 + word) (hword : word < 2 ^ 23) :
    (c >>> 24).toNat = size ∧ (c &&& 0x007fffff#32).toNat = word := by
  rw [toNat_ushiftRight_24, toNat_and_mantissa]
  constructor <;> omega

theorem fNegative_eq_false (hc : c.toNat = size * 2 ^ 24 + word) (hword : word < 2 ^ 23) :
    (setCompact c).fNegative = false := by
  have hsign : c &&& 0x00800000#32 = 0#32 := by
    have hbit : c.toNat.testBit 23 = false := by
      rw [Nat.testBit_eq_decide_div_mod_eq, decide_eq_false_iff_not]
      omega
    rw [← BitVec.toNat_inj, BitVec.toNat_and]
    exact (Nat.and_two_pow c.toNat 23).trans (by rw [hbit]; rfl)
  simp only [setCompact, hsign, bne_self_eq_false, Bool.and_false]

theorem fOverflow_eq_false (hc : c.toNat = size * 2 ^ 24 + word) (hword : word < 2 ^ 23)
    (hsize : size ≤ 33) (hlast : size = 33 → word < 2 ^ 16) : (setCompact c).fOverflow = false := by
  obtain ⟨hsizeField, hwordField⟩ := fields_of_eq hc hword
  simp only [setCompact, hsizeField]
  rw [Bool.and_eq_false_iff]
  right
  by_cases hfull : size = 33
  · have hsmall : ¬ (c &&& 0x007fffff#32) > 0xffff#32 := by
      rw [gt_iff_lt, BitVec.lt_def, hwordField]
      exact not_lt_of_ge (Nat.le_of_lt_succ (hlast hfull))
    simp [hfull, hsmall]
  · simp [show ¬ 34 < size by omega, show ¬ 33 < size by omega, show ¬ 32 < size by omega]

end Flags

theorem encodedWord_lt_of_size (t : ArithUint256) (h : encodedSize t.toNat = 33) :
    encodedWord t.toNat < 2 ^ 16 := by
  have hlen := byteLength_le t
  have hlead := leading_lt t.toNat
  unfold encodedSize at h
  unfold encodedWord
  split at h
  · omega
  · next hfull =>
      rw [if_neg hfull]
      omega

/-! ## Decoded targets -/

def kept (t : ArithUint256) : ArithUint256 :=
  BitVec.ofNat 256 (trunc t.toNat)

theorem toNat_kept (t : ArithUint256) : (kept t).toNat = trunc t.toNat := by
  rw [kept, BitVec.toNat_ofNat, Nat.mod_eq_of_lt (lt_of_le_of_lt (trunc_le _) t.isLt)]

variable {t : ArithUint256} {c : BitVec 32}

theorem value_eq_kept (h : getCompact t false = some c) :
    (setCompact c).value = kept t := by
  apply BitVec.eq_of_toNat_eq
  rw [setCompact_getCompact h, toNat_kept]

theorem getCompact_kept (h : getCompact t false = some c) :
    getCompact (kept t) false = some c := by
  obtain ⟨c', hsome, hvalue⟩ := getCompact_eq t
  obtain ⟨c'', hsome', hvalue'⟩ := getCompact_eq (kept t)
  obtain ⟨hsize, hword⟩ := encoded_trunc t.toNat
  have hsame : c'' = c' := by
    apply BitVec.eq_of_toNat_eq
    rw [hvalue, hvalue', toNat_kept, hsize, hword]
  rw [hsome', hsame, ← hsome, h]

theorem deriveTarget_getCompact {powLimit : BitVec 256} (h : getCompact t false = some c)
    (hpos : 0 < t.toNat) (hle : t ≤ powLimit) :
    deriveTarget c powLimit = some (kept t) := by
  obtain ⟨c', hsome, hfields⟩ := getCompact_eq t
  cases hsome.symm.trans h
  -- each of the four tests of `DeriveTarget` is passed
  have hword := encodedWord_lt t.toNat
  have hnegative := fNegative_eq_false hfields hword
  have hoverflow := fOverflow_eq_false hfields hword (encodedSize_le t) (encodedWord_lt_of_size t)
  have hne : kept t ≠ 0 := by
    intro hzero
    have hkept := trunc_pos hpos
    rw [← toNat_kept, hzero] at hkept
    exact absurd hkept (by decide)
  have hlimit : ¬ kept t > powLimit := by
    rw [gt_iff_lt, BitVec.lt_def, toNat_kept]
    exact not_lt_of_ge ((trunc_le _).trans (BitVec.le_def.1 hle))
  simp only [deriveTarget, value_eq_kept h, hnegative, hoverflow, hne, hlimit, Bool.false_eq_true,
    or_self, if_false]

/-- Every positive target is encoded; what is decoded is at most the target and more than
`t - t / 2 ^ 15`, has the same encoding, grows with the target, and is accepted as a target if the
limit allows `t`. -/
theorem compactTarget_faithful (t : ArithUint256) (hpos : 0 < t) (powLimit : BitVec 256) :
    ∃ c d, getCompact t false = some c ∧ (setCompact c).value = d ∧
      d ≤ t ∧ 2 ^ 15 * (t.toNat - d.toNat) < t.toNat ∧
      getCompact d false = some c ∧
      (∀ t' c', t ≤ t' → getCompact t' false = some c' → d ≤ (setCompact c').value) ∧
      (t ≤ powLimit → deriveTarget c powLimit = some d) := by
  obtain ⟨c, hc, _⟩ := getCompact_eq t
  have hpos' : 0 < t.toNat := BitVec.lt_def.1 hpos
  refine ⟨c, kept t, hc, value_eq_kept hc, ?_, ?_, getCompact_kept hc, ?_, ?_⟩
  · rw [BitVec.le_def, toNat_kept]
    exact trunc_le t.toNat
  · rw [toNat_kept]
    exact mul_sub_trunc_lt hpos'
  · intro t' c' hle hc'
    rw [value_eq_kept hc', BitVec.le_def, toNat_kept, toNat_kept]
    exact trunc_mono (BitVec.le_def.1 hle)
  · intro hle
    exact deriveTarget_getCompact hc hpos' hle

/-- The easiest target of the main network loses its low bytes. -/
theorem compactTarget_of_powLimit :
    (0 : ArithUint256) < Consensus.mainParams.powLimit ∧
      ∃ c, getCompact Consensus.mainParams.powLimit false = some c ∧
        deriveTarget c Consensus.mainParams.powLimit = some (0x7fffff#256 <<< 232) := by
  have hpos : (0 : ArithUint256) < Consensus.mainParams.powLimit := by decide
  obtain ⟨c, d, hc, hd, _, _, _, _, hderive⟩ :=
    compactTarget_faithful Consensus.mainParams.powLimit hpos Consensus.mainParams.powLimit
  have hword : getCompact Consensus.mainParams.powLimit false = some 0x207fffff#32 := by decide
  cases hword.symm.trans hc
  refine ⟨hpos, _, hword, ?_⟩
  rw [hderive (BitVec.le_refl _), ← hd]
  decide

end TKNC.Difficulty
