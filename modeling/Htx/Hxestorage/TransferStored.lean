import Htx.Hxestorage.TransferSize

/-!
# Normalised transfer sizes

What the two parsers of `TRANSFER_SIZE` store for the documented forms of a text.
-/

namespace Htx.Hxestorage

open XferSize Nat Int

/-!
# What is stored
-/

structure XferSize.Normalised (blksize : Nat) (y : XferSize) : Prop where
  blksize_le : blksize ≤ y.minLen
  ordered : y.minLen ≤ y.maxLen
  dvd_minLen : blksize ∣ y.minLen
  dvd_maxLen : blksize ∣ y.maxLen
  increment : y.increment = -1 ∨ (blksize : Int) ∣ y.increment
  fixed : y.increment = 0 -> y.minLen = y.maxLen

def XferSize.StepKept (blksize : Nat) (x : XferSize) : Prop :=
  0 < x.increment -> x.increment < blksize -> x.maxLen / blksize ≤ max 1 (x.minLen / blksize)

instance (blksize : Nat) (x : XferSize) : Decidable (x.StepKept blksize) :=
  inferInstanceAs (Decidable (_ -> _ -> _))

section

variable {blksize : Nat}

theorem dvd_signed32 (hdvd : blksize ∣ 2 ^ 32) {m : Nat} (hm : blksize ∣ m) :
    (blksize : Int) ∣ signed32 m := by
  have hdvdInt : (blksize : Int) ∣ (2 ^ 32 : Nat) := natCast_dvd_natCast.mpr hdvd
  have hmod : (blksize : Int) ∣ (m : Int) % (2 ^ 32 : Nat) :=
    (EuclideanDomain.dvd_mod_iff hdvdInt).mpr (natCast_dvd_natCast.mpr hm)
  unfold signed32
  rw [bmod_def]
  split
  · exact hmod
  · exact dvd_sub hmod hdvdInt

theorem dvd_of_dvd_u32 (hdvd : blksize ∣ 2 ^ 32) {v : Int} (hv : blksize ∣ u32 v) :
    (blksize : Int) ∣ v := by
  have hdvdInt : (blksize : Int) ∣ 2 ^ 32 := by exact_mod_cast hdvd
  have hcast : (u32 v : Int) = v % 2 ^ 32 := toNat_of_nonneg (by omega)
  have hmod := natCast_dvd_natCast.mpr hv
  rw [hcast] at hmod
  exact (EuclideanDomain.dvd_mod_iff hdvdInt).mp hmod

theorem roundIncrement_dvd (hdvd : blksize ∣ 2 ^ 32) (increment : Int) :
    roundIncrement blksize increment = -1 ∨ (blksize : Int) ∣ roundIncrement blksize increment := by
  unfold roundIncrement
  by_cases h : increment ≠ -1 ∧ u32 increment % blksize ≠ 0
  · rw [if_pos h]
    exact .inr (dvd_signed32 hdvd (dvd_mul_left _ _))
  · rw [if_neg h]
    refine or_iff_not_imp_left.mpr fun hminus => ?_
    apply dvd_of_dvd_u32 hdvd
    apply dvd_of_mod_eq_zero
    by_contra hrest
    exact h ⟨hminus, hrest⟩

variable {increment : Int}

theorem signed32_round_neg (hdvd : blksize ∣ 2 ^ 31) (hlow : -2 ^ 31 ≤ increment)
    (hneg : increment < 0) :
    signed32 (u64 increment / blksize * blksize) < 0 := by
  have hu64 : u64 increment < 2 ^ 64 ∧ 2 ^ 64 - 2 ^ 31 ≤ u64 increment := by
    unfold u64
    omega
  have hbottom : blksize ∣ 2 ^ 64 - 2 ^ 31 := dvd_sub (hdvd.trans ⟨2 ^ 33, by norm_num⟩) hdvd
  have hfloor : 2 ^ 64 - 2 ^ 31 ≤ u64 increment / blksize * blksize := by
    rw [← Nat.div_mul_cancel hbottom]
    exact Nat.mul_le_mul_right _ (Nat.div_le_div_right hu64.2)
  have hceil := div_mul_le_self (u64 increment) blksize
  generalize u64 increment / blksize * blksize = rounded at *
  unfold signed32
  rw [bmod_def]
  split <;> omega

theorem signed32_round_pos (hpos : 0 < increment) (hhigh : increment < 2 ^ 31) :
    signed32 (u64 increment / blksize * blksize) = (increment.toNat / blksize * blksize : Nat) := by
  have hu64 : u64 increment = increment.toNat := by
    unfold u64
    omega
  have hceil := div_mul_le_self increment.toNat blksize
  rw [hu64]
  generalize increment.toNat / blksize * blksize = rounded at *
  exact bmod_eq_of_le (by omega) (by omega)

theorem roundIncrement_eq_zero_iff (hpos : 0 < blksize) (hdvd : blksize ∣ 2 ^ 31)
    (hlow : -2 ^ 31 ≤ increment) (hhigh : increment < 2 ^ 31) (hne : increment ≠ 0) :
    roundIncrement blksize increment = 0 <-> 0 < increment ∧ increment < blksize := by
  unfold roundIncrement
  constructor
  · intro hzero
    split at hzero
    · rcases lt_or_gt_of_ne hne with hneg | hinc
      · have := signed32_round_neg hdvd hlow hneg
        omega
      · rw [signed32_round_pos hinc hhigh, natCast_eq_zero, mul_eq_zero,
          Nat.div_eq_zero_iff] at hzero
        omega
    · exact absurd hzero hne
  · intro h
    have hu32 : u32 increment = increment.toNat := by
      unfold u32
      omega
    have hsmall : increment.toNat < blksize := by omega
    rw [if_pos, signed32_round_pos h.1 hhigh, div_eq_of_lt hsmall, zero_mul]
    · rfl
    · rw [hu32, mod_eq_of_lt hsmall]
      omega

variable {x : XferSize}

theorem normalize_minLen_eq (hpos : 0 < blksize) :
    (x.normalize blksize).minLen = max 1 (x.minLen / blksize) * blksize := by
  rw [normalize_minLen]
  split
  · next hlt =>
      rw [div_eq_of_lt hlt, max_eq_left (zero_le 1), one_mul]
  · next hge =>
      rw [Nat.max_eq_right (Nat.div_pos (Nat.le_of_not_lt hge) hpos)]

theorem normalize_fixed_iff (hpos : 0 < blksize) (hdvd : blksize ∣ 2 ^ 31)
    (hlow : -2 ^ 31 ≤ x.increment) (hhigh : x.increment < 2 ^ 31) :
    ((x.normalize blksize).increment = 0 ->
        (x.normalize blksize).minLen = (x.normalize blksize).maxLen) <->
      x.StepKept blksize := by
  have hmin := normalize_minLen_eq (x := x) hpos
  have hblocks : ¬ x.upperLen < (x.normalize blksize).minLen ->
      max 1 (x.minLen / blksize) ≤ x.upperLen / blksize := by
    intro hlt
    rw [hmin] at hlt
    exact (Nat.le_div_iff_mul_le hpos).mpr (Nat.le_of_not_lt hlt)
  rw [normalize_increment, normalize_maxLen, XferSize.StepKept]
  by_cases hlt : x.upperLen < (x.normalize blksize).minLen
  · rw [if_pos hlt, if_pos hlt]
    refine iff_of_true (fun _ => rfl) fun hinc _ => ?_
    rw [upperLen, if_neg hinc.ne', hmin] at hlt
    exact Nat.le_of_lt (Nat.div_lt_of_lt_mul (by rwa [Nat.mul_comm]))
  · have hle := hblocks hlt
    rw [if_neg hlt, if_neg hlt, hmin, Nat.mul_left_inj hpos.ne']
    by_cases hzero : x.increment = 0
    · refine iff_of_true (fun _ => ?_) fun hinc => absurd hzero hinc.ne'
      rw [upperLen, if_pos hzero] at hle ⊢
      exact le_antisymm hle (le_max_right _ _)
    · rw [roundIncrement_eq_zero_iff hpos hdvd hlow hhigh hzero, and_imp]
      rw [upperLen, if_neg hzero] at hle ⊢
      constructor
      · intro h hinc hsmall
        exact le_of_eq (h hinc hsmall).symm
      · intro h hinc hsmall
        exact le_antisymm hle (h hinc hsmall)

end

namespace SizeText

variable {blksize : Nat}

theorem toInt_bounds (v : Int) : -2 ^ 31 ≤ toInt v ∧ toInt v < 2 ^ 31 :=
  signed32_bounds _

theorem value_nonneg (blksize : Nat) (n : NumberText) : 0 ≤ n.value blksize false := by
  unfold NumberText.value
  rw [if_neg Bool.false_ne_true]
  apply mul_nonneg
  · omega
  · omega

theorem Fits.u64_value_lt {n : NumberText} (h : n.IsLong blksize false) :
    u64 (n.value blksize false) < 2 ^ 63 := by
  have hnonneg := value_nonneg blksize n
  have hlt := h.2
  unfold u64
  omega

theorem Fits.values_bounds {t : SizeText} (h : t.Fits blksize) :
    (t.values blksize).minLen < 2 ^ 63 ∧ (t.values blksize).maxLen < 2 ^ 63 ∧
      -2 ^ 31 ≤ (t.values blksize).increment ∧ (t.values blksize).increment < 2 ^ 31 := by
  have hzero : -2 ^ 31 ≤ (0 : Int) ∧ (0 : Int) < 2 ^ 31 := by decide
  cases t with
  | fixed n =>
    have hn := Fits.u64_value_lt h.2
    exact ⟨hn, hn, hzero⟩
  | single n =>
    have hn := Fits.u64_value_lt h.2.2
    exact ⟨hn, hn, hzero⟩
  | range n m => exact ⟨Fits.u64_value_lt h.2.2.1, Fits.u64_value_lt h.2.2.2, hzero⟩
  | stepped n m negative i =>
    refine ⟨Fits.u64_value_lt h.2.2.2.1, Fits.u64_value_lt h.2.2.2.2.1, ?_⟩
    simp only [values]
    exact toInt_bounds _

theorem Fits.accepted {t : SizeText} (h : t.Fits blksize) (hpos : 0 < blksize)
    (hlt : blksize < 2 ^ 32) : (t.values blksize).Accepted blksize := by
  rcases h.values_bounds with ⟨hmin, hmax, hlow, hhigh⟩
  refine ⟨hpos, hlt, by omega, fun _ => hmax, hlow, hhigh, ?_⟩
  have hminus : u64 (-1) = 2 ^ 64 - 1 := by decide
  have hfloor := div_mul_le_self (t.values blksize).minLen blksize
  rw [normalize_minLen, hminus]
  split <;> omega

end SizeText

/-- For every block size that is a power of two and every text of the documented forms: both
parsers store the same values, and these are normalised, exactly when the text fits and
does not ask for steps of less than a block. -/
theorem transferSize_normalised_iff {k : Nat} (hk : k < 32) (t : SizeText) :
    (exists y, parseRuleSize (2 ^ k) t.text = some y ∧
        parseTemplateSize (2 ^ k) t.text = some y ∧ y.Normalised (2 ^ k)) <->
      t.Fits (2 ^ k) ∧ (t.values (2 ^ k)).StepKept (2 ^ k) := by
  have hpos : 0 < 2 ^ k := Nat.two_pow_pos k
  have hlt : 2 ^ k < 2 ^ 32 := Nat.pow_lt_pow_right (by decide) hk
  have hdvd : 2 ^ k ∣ 2 ^ 31 := pow_dvd_pow 2 (le_of_lt_succ hk)
  have hdvd32 : 2 ^ k ∣ 2 ^ 32 := pow_dvd_pow 2 hk.le
  constructor
  · intro h
    rcases h with ⟨y, hrule, htemplate, hy⟩
    have hlen : t.text.length < 64 := by
      by_contra hge
      rw [parseTemplateSize, if_pos (Nat.le_of_not_lt hge)] at htemplate
      cases htemplate
    rw [(t.parse_text hlen).1, t.parsed_eq_some_iff hlen] at hrule
    rcases hrule with ⟨hfits, rfl⟩
    have hbounds := hfits.values_bounds
    exact ⟨hfits, (normalize_fixed_iff hpos hdvd hbounds.2.2.1 hbounds.2.2.2).mp hy.fixed⟩
  · intro h
    rcases h with ⟨hfits, hkept⟩
    have hparsed := (t.parsed_eq_some_iff hfits.1).mpr ⟨hfits, rfl⟩
    have hstored := (hfits.accepted hpos hlt).stored
    have hbounds := hfits.values_bounds
    refine ⟨(t.values (2 ^ k)).normalize (2 ^ k), ?_, ?_, ?_⟩
    · rw [(t.parse_text hfits.1).1, hparsed]
    · rw [(t.parse_text hfits.1).2, hparsed]
    · refine ⟨hstored.blksize_le, hstored.ordered, hstored.dvd_minLen, hstored.dvd_maxLen, ?_, ?_⟩
      · rw [XferSize.normalize_increment]
        exact roundIncrement_dvd hdvd32 _
      · exact (normalize_fixed_iff hpos hdvd hbounds.2.2.1 hbounds.2.2.2).mpr hkept

theorem toDigits_ten_ne (n : Nat) : toDigits 10 n ≠ [] :=
  toDigits_ne_nil

theorem isDigit_toDigits_ten (n : Nat) : forall c, c ∈ toDigits 10 n -> c.isDigit = true :=
  fun _ hc => isDigit_of_mem_toDigits (by decide) (by decide) hc

def numberText (n : Nat) (suffix : NumberSuffix) : NumberText where
  digits := toDigits 10 n
  suffix := suffix
  digits_ne := toDigits_ten_ne n
  isDigit := isDigit_toDigits_ten n

def downwards : SizeText :=
  .stepped (numberText 1 (.kilo false)) (numberText 4 (.blk true true true)) true
    (numberText 512 .bytes)

theorem transferSize_normalised_downwards :
    parseRuleSize 512 downwards.text = some ⟨1024, 2048, -512⟩ ∧
      exists y, parseRuleSize 512 downwards.text = some y ∧
        parseTemplateSize 512 downwards.text = some y ∧ y.Normalised 512 := by
  constructor
  · decide +kernel
  · apply (transferSize_normalised_iff (k := 9) (by decide) downwards).mpr
    decide +kernel

def smallSteps : SizeText :=
  .stepped (numberText 512 .bytes) (numberText 4 (.kilo false)) false (numberText 100 .bytes)

/-- Steps of less than a block are rounded to none, and the limits stay apart; and a number of 40
digits in brackets is written behind the end of `chr_ptr[0]`. -/
theorem transferSize_not_normalised : parseRuleSize 512 smallSteps.text = some ⟨512, 4096, 0⟩ ∧
      parseTemplateSize 512 smallSteps.text = some ⟨512, 4096, 0⟩ ∧
      ¬ XferSize.Normalised 512 ⟨512, 4096, 0⟩ ∧
      parseRuleSize 512 (SizeText.single (numberText (10 ^ 39) .bytes)).text = none := by
  refine ⟨by decide +kernel, by decide +kernel, ?_, by decide +kernel⟩
  intro h
  cases h.fixed rfl

end Htx.Hxestorage
