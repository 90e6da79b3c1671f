import Htx.Hxemem64.Operations

/-!
# Detection of corrupted memory

What a write leaves in a segment is one image, and the comparison with the same pattern
and seed looks for exactly this image.  A changed byte is noticed when the image covers
it.
-/

namespace Htx.Hxemem64

open Library Generator Nat Memory BitVec

section

variable (mach : Machine)

theorem randStep_image (w : Width) (n : Nat) (seed first first' : UInt64) :
    (randStep mach w).image mach.order w.bytes n ⟨seed, first⟩ =
      (randStep mach w).image mach.order w.bytes n ⟨seed, first'⟩ := by
  cases n with
  | zero => rfl
  | succ n =>
    rw [image_succ, image_succ]
    rfl

def expectedImage (pattern : Pattern) (w : Width) (numOperations : Int) (seed : UInt64) :
    List UInt8 :=
  match pattern.type with
  | .sizeNormal =>
    (normalStep mach w pattern).image mach.order w.bytes numOperations.toNat ()
  | .sizeBig =>
    blockImage mach.order w.bytes (patStep mach w pattern) (patLimit pattern) 0
      (toUnsigned numOperations / patLimit pattern)
  | .address => []
  | .random =>
    (randStep mach w).image mach.order w.bytes numOperations.toNat ⟨seed, seed⟩

variable {mach} {pattern : Pattern} {w : Width} {numOperations : Int} {a : Nat}
variable {seed : UInt64} {m : Memory}

theorem memOperationWrite_memory (htype : pattern.type = .sizeNormal) :
    (memOperationWrite mach w numOperations a pattern seed m).memory =
      m.put a (expectedImage mach pattern w numOperations seed) := by
  simp [memOperationWrite, expectedImage, htype, storeLoop_eq]

theorem memOperationComp_rc (htype : pattern.type = .sizeNormal) :
    (memOperationComp mach w numOperations a pattern seed m).rc = 0 <->
      m.bytes a (expectedImage mach pattern w numOperations seed).length =
        expectedImage mach pattern w numOperations seed := by
  simp only [memOperationComp, expectedImage, htype, rcOf_eq_zero_iff, length_image]
  exact compareLoop_eq_none_iff (fun _ => load_lt _ _ _ _) _ _ _ _ _

theorem patOperationWrite_memory (htype : pattern.type = .sizeBig) :
    (patOperationWrite mach w numOperations a pattern seed m).memory =
      m.put a (expectedImage mach pattern w numOperations seed) := by
  simp [patOperationWrite, expectedImage, htype, storeBlocks_eq]

theorem patOperationComp_rc (htype : pattern.type = .sizeBig) :
    (patOperationComp mach w numOperations a pattern seed m).rc = 0 <->
      m.bytes a (expectedImage mach pattern w numOperations seed).length =
        expectedImage mach pattern w numOperations seed := by
  simp only [patOperationComp, expectedImage, htype, rcOf_eq_zero_iff, length_blockImage]
  exact compareBlocks_eq_none_iff (fun _ => load_lt _ _ _ _) _ _ _ _ _ _

theorem randOperationWrite_memory (htype : pattern.type = .random) (first : UInt64 -> UInt64) :
    (randOperationWrite mach w first numOperations a pattern seed m).memory =
      m.put a (expectedImage mach pattern w numOperations seed) := by
  simp only [randOperationWrite, expectedImage, htype, storeLoop_eq]
  rw [randStep_image]

theorem randOperationComp_rc (htype : pattern.type = .random) (first : UInt64 -> UInt64) :
    (randOperationComp mach w first numOperations a pattern seed m).rc = 0 <->
      m.bytes a (expectedImage mach pattern w numOperations seed).length =
        expectedImage mach pattern w numOperations seed := by
  simp only [randOperationComp, expectedImage, htype, rcOf_eq_zero_iff, length_image]
  rw [compareLoop_eq_none_iff (randStep_lt mach w), randStep_image]

def addressImage (mach : Machine) (numOperations : Int) (a : Nat) : List UInt8 :=
  addrStep.image mach.order 8 (numOperations.toNat - 1) (UInt64.ofNat (a + 8), a + 8)

theorem memOperationWriteAddr_bytes :
    (memOperationWriteAddr mach numOperations a pattern seed m).memory.bytes (a + 8)
      (addressImage mach numOperations a).length = addressImage mach numOperations a := by
  simp only [memOperationWriteAddr, storeLoop_eq, addressImage]
  cases numOperations.toNat with
  | zero => rfl
  | succ n =>
    rw [image_succ, put_append, ByteOrder.length_encode]
    exact bytes_put_self rfl

theorem memOperationCompAddr_rc :
    (memOperationCompAddr mach numOperations a pattern seed m).rc = 0 <->
      m.bytes (a + 8) (addressImage mach numOperations a).length =
        addressImage mach numOperations a := by
  have hfirst : (addrStep (addrStart mach a m)).1 = m.load mach.order a 8 := by
    have hlt := load_lt mach.order m a 8
    exact mod_eq_of_lt hlt
  simp only [memOperationCompAddr, addressImage, rcOf_eq_zero_iff, length_image]
  cases numOperations.toNat with
  | zero => simp [compareLoop, bytes]
  | succ n =>
    rw [compareLoop, if_pos hfirst.symm]
    exact compareLoop_eq_none_iff (fun s => s.1.toNat_lt) _ _ _ _ _

end

/-!
# The calls of do_mem_operation
-/

def segmentImage (mach : Machine) (pattern : Pattern) (width : Width) (seg : Segment)
    (seed : UInt64) : List UInt8 :=
  expectedImage mach pattern width (toInt (seg.size / width.bytes)) seed

section

variable (mach : Machine) {pattern : Pattern} (width : Width) (seg : Segment)
variable (seed : UInt64) (m : Memory)

section

variable (htype : pattern.type ≠ .address)

include htype

theorem memAccess_of_ne_address : memAccess pattern width = width := by
  unfold memAccess
  split
  case h_1 h => exact absurd h htype
  case h_2 => rfl

theorem callOperation_write :
    exists r, callOperation mach .write pattern width seg seed m = some r ∧
      r.memory = m.put seg.address (segmentImage mach pattern width seg seed) := by
  rw [callOperation, memAccess_of_ne_address width htype]
  cases hkind : pattern.type with
  | sizeNormal => cases width <;> exact ⟨_, rfl, memOperationWrite_memory hkind⟩
  | sizeBig => cases width <;> exact ⟨_, rfl, patOperationWrite_memory hkind⟩
  | address => exact absurd hkind htype
  | random => cases width <;> exact ⟨_, rfl, randOperationWrite_memory hkind _⟩

theorem callOperation_compare :
    exists r, callOperation mach .compare pattern width seg seed m = some r ∧
      (r.rc = 0 <-> m.bytes seg.address (segmentImage mach pattern width seg seed).length =
        segmentImage mach pattern width seg seed) := by
  rw [callOperation, memAccess_of_ne_address width htype]
  cases hkind : pattern.type with
  | sizeNormal => cases width <;> exact ⟨_, rfl, memOperationComp_rc hkind⟩
  | sizeBig => cases width <;> exact ⟨_, rfl, patOperationComp_rc hkind⟩
  | address => exact absurd hkind htype
  | random => cases width <;> exact ⟨_, rfl, randOperationComp_rc hkind _⟩

end

end

/-!
# Counts
-/

theorem toUnsigned_toInt (n : Nat) : toUnsigned (toInt n) = n % 2 ^ 32 := by
  unfold toUnsigned toInt
  rw [toInt_eq_toNat_cond, toNat_ofNat]
  split <;> omega

theorem toNat_toInt_lt (n : Nat) : (toInt n).toNat < 2 ^ 31 := by
  unfold toInt
  rw [toInt_eq_toNat_cond, toNat_ofNat]
  split <;> omega

theorem toNat_toInt_of_lt {n : Nat} (h : n < 2 ^ 31) : (toInt n).toNat = n := by
  unfold toInt
  rw [toInt_eq_toNat_cond, toNat_ofNat]
  split <;> omega

theorem mul_le_toNat_toInt_iff {n w : Nat} (hw : 0 < w) :
    n * w ≤ (toInt n).toNat * w <-> n < 2 ^ 31 := by
  rw [Nat.mul_le_mul_right_iff hw]
  constructor
  · intro h
    exact lt_of_le_of_lt h (toNat_toInt_lt n)
  · intro h
    rw [toNat_toInt_of_lt h]

theorem mul_le_blocks_iff {n k w : Nat} (hw : 0 < w) (hdvd : k ∣ n) :
    n * w ≤ toUnsigned (toInt n) / k * (k * w) <-> n < 2 ^ 32 := by
  rw [← Nat.mul_assoc, Nat.mul_le_mul_right_iff hw, toUnsigned_toInt]
  constructor
  · intro h
    have hquot : n % 2 ^ 32 / k * k ≤ n % 2 ^ 32 := Nat.div_mul_le_self _ _
    omega
  · intro h
    rw [Nat.mod_eq_of_lt h, Nat.div_mul_cancel hdvd]

theorem Width.bytes_pos (w : Width) : 0 < w.bytes := by
  cases w <;> decide

theorem Width.dvd_page (w : Width) : w.bytes * 512 ∣ 4096 := by
  cases w <;> decide

theorem patLimit_dvd (pattern : Pattern) : patLimit pattern ∣ 512 := by
  obtain ⟨k, hk⟩ := pattern.size_pow
  have hle := pattern.size_le
  rw [hk] at hle
  unfold minPatternSize at hk
  unfold minPatternSize maxPatternSize at hle
  have hlimit : patLimit pattern = 2 ^ k := by
    rw [patLimit, hk, Nat.mul_div_cancel_left _ (by decide)]
  have hexp : k ≤ 9 := by
    by_contra hbig
    have hpow : 2 ^ 10 ≤ 2 ^ k := Nat.pow_le_pow_right (by decide) (by omega)
    omega
  rw [hlimit, show 512 = 2 ^ 9 from rfl]
  exact pow_dvd_pow 2 hexp

inductive PageSize where
  | p4k
  | p64k
  | p2m
  | p16m
  | p16g
  deriving DecidableEq

def PageSize.bytes : PageSize -> Nat
  | p4k => 4096
  | p64k => 65536
  | p2m => 2097152
  | p16m => 16777216
  | p16g => 17179869184

theorem PageSize.dvd_bytes (page : PageSize) : 4096 ∣ page.bytes := by
  cases page <;> decide

def KeepsCount (type : PatternType) (elements : Nat) : Prop :=
  match type with
  | .sizeNormal => elements < 2 ^ 31
  | .sizeBig => elements < 2 ^ 32
  | .address => False
  | .random => elements < 2 ^ 31

instance (type : PatternType) (elements : Nat) : Decidable (KeepsCount type elements) :=
  match type with
  | .sizeNormal => inferInstanceAs (Decidable (elements < 2 ^ 31))
  | .sizeBig => inferInstanceAs (Decidable (elements < 2 ^ 32))
  | .address => inferInstanceAs (Decidable False)
  | .random => inferInstanceAs (Decidable (elements < 2 ^ 31))

section

variable {mach : Machine} {pattern : Pattern} {width : Width} {seg : Segment}
variable {seed : UInt64} {m : Memory}

theorem le_length_segmentImage_iff (htype : pattern.type ≠ .address) (hpage : 4096 ∣ seg.size) :
    seg.size ≤ (segmentImage mach pattern width seg seed).length <->
      KeepsCount pattern.type (seg.size / width.bytes) := by
  have hwidth := width.bytes_pos
  have hunit : width.bytes * 512 ∣ seg.size := width.dvd_page.trans hpage
  have hsize : seg.size / width.bytes * width.bytes = seg.size :=
    Nat.div_mul_cancel (Dvd.dvd.trans (Dvd.intro _ rfl) hunit)
  have hpattern : patLimit pattern ∣ seg.size / width.bytes :=
    (patLimit_dvd pattern).trans (dvd_div_of_mul_dvd hunit)
  unfold segmentImage expectedImage KeepsCount
  cases hkind : pattern.type with
  | sizeNormal | random => rw [length_image, ← mul_le_toNat_toInt_iff hwidth, hsize]
  | sizeBig => rw [length_blockImage, ← mul_le_blocks_iff hwidth hpattern, hsize]
  | address => exact absurd hkind htype

end

/-!
# Detection
-/

/-- The write succeeds, and the comparison with the same pattern and seed returns a
non-zero value whichever byte of the segment is changed in between. -/
def DetectsCorruption (mach : Machine) (pattern : Pattern) (width : Width) (seg : Segment)
    (seed : UInt64) (m : Memory) : Prop :=
  exists written, callOperation mach .write pattern width seg seed m = some written ∧
    forall pos, pos < seg.size -> forall b, b ≠ written.memory (seg.address + pos) ->
      exists r, callOperation mach .compare pattern width seg seed
        (written.memory.put (seg.address + pos) [b]) = some r ∧ r.rc ≠ 0

section

variable {mach : Machine} {pattern : Pattern} {width : Width} {seg : Segment}
variable {seed : UInt64} {m : Memory}

theorem detectsCorruption_iff_le (htype : pattern.type ≠ .address) :
    DetectsCorruption mach pattern width seg seed m <->
      seg.size ≤ (segmentImage mach pattern width seg seed).length := by
  obtain ⟨written, hwrite, hmemory⟩ := callOperation_write mach width seg seed m htype
  have himage := check_detects_iff m seg.size (fun m' => Iff.refl
    (m'.bytes seg.address (segmentImage mach pattern width seg seed).length =
      segmentImage mach pattern width seg seed))
  rw [← hmemory] at himage
  rw [← himage]
  constructor
  · rintro ⟨written', hwrite', hdetect⟩ pos hpos b hb hgood
    obtain rfl : written = written' := Option.some.inj (hwrite.symm.trans hwrite')
    obtain ⟨r, hcompare, hrc⟩ := hdetect pos hpos b hb
    obtain ⟨r', hcompare', hiff⟩ := callOperation_compare mach width seg seed
      (written.memory.put (seg.address + pos) [b]) htype
    obtain rfl : r = r' := Option.some.inj (hcompare.symm.trans hcompare')
    exact hrc (hiff.mpr hgood)
  · intro hdetect
    refine ⟨written, hwrite, ?_⟩
    intro pos hpos b hb
    obtain ⟨r, hcompare, hiff⟩ := callOperation_compare mach width seg seed
      (written.memory.put (seg.address + pos) [b]) htype
    exact ⟨r, hcompare, fun hrc => hdetect pos hpos b hb (hiff.mp hrc)⟩

theorem not_detectsCorruption_address (htype : pattern.type = .address)
    (hsize : 0 < seg.size) : ¬ DetectsCorruption mach pattern width seg seed m := by
  rintro ⟨written, hwrite, hdetect⟩
  simp only [callOperation, memAccess, htype, operationFunTyp, Option.map_some,
    Option.some.injEq] at hwrite hdetect
  obtain ⟨r, rfl, hrc⟩ := hdetect 0 hsize (written.memory (seg.address + 0) + 1) (by simp)
  apply hrc
  rw [memOperationCompAddr_rc, bytes_put_of_disjoint (.inr (by simp)), ← hwrite]
  exact memOperationWriteAddr_bytes

/-- Every changed byte is noticed exactly when the routines of the pattern keep the
number of elements of the segment; the address pattern never notices all of them. -/
theorem detectsCorruption_iff (page : PageSize) (pages : Nat) (hpages : 0 < pages)
    (hsize : seg.size = pages * page.bytes) :
    DetectsCorruption mach pattern width seg seed m <->
      KeepsCount pattern.type (seg.size / width.bytes) := by
  by_cases htype : pattern.type = .address
  · have hpos : 0 < seg.size := by
      rw [hsize]
      exact mul_pos hpages (by cases page <;> decide)
    simp [not_detectsCorruption_address htype hpos, htype, KeepsCount]
  · have hdvd : 4096 ∣ seg.size := by
      rw [hsize]
      exact page.dvd_bytes.mul_left pages
    rw [detectsCorruption_iff_le htype, le_length_segmentImage_iff htype hdvd]

end

def plainRandR : RandR where
  next seed := (seed &&& 0x7fffffff, seed + 1)
  nonneg := by
    intro seed
    have h := and_le_right (n := seed.toNat) (m := 0x7fffffff)
    simp only [UInt32.toNat_and]
    exact lt_of_le_of_lt h (by decide)

def littleMachine : Machine :=
  ⟨.little, plainRandR, 0⟩

def onesPattern : Pattern where
  type := .sizeNormal
  size := 8
  data := fun _ => 0xff
  size_pow := ⟨0, rfl⟩
  size_le := by decide
  size_normal := fun _ => rfl
  size_big := fun h => by cases h

def addressPattern : Pattern where
  type := .address
  size := 8
  data := fun _ => 0
  size_pow := ⟨0, rfl⟩
  size_le := by decide
  size_normal := fun h => by cases h
  size_big := fun h => by cases h

theorem detectsCorruption_256mb :
    DetectsCorruption littleMachine onesPattern .dword ⟨0x10000000, 4096 * 65536⟩ 0
      (fun _ => 0) :=
  (detectsCorruption_iff .p64k 4096 (by decide) rfl).mpr (by decide)

/-- The first element of an address pattern, and every element of a segment of 16 GB,
whose `2 ^ 31` double words are a negative `int`. -/
theorem corruption_unnoticed :
    ¬ DetectsCorruption littleMachine addressPattern .dword ⟨0x10000000, 4096⟩ 0
        (fun _ => 0) ∧
      ¬ DetectsCorruption littleMachine onesPattern .dword ⟨0x10000000, 17179869184⟩ 0
        (fun _ => 0) := by
  constructor
  · exact not_detectsCorruption_address rfl (by decide)
  · rw [detectsCorruption_iff_le (by decide), le_length_segmentImage_iff (by decide) (by decide)]
    decide

end Htx.Hxemem64
