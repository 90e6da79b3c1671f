import Mathlib

/-!
# The byte counters of an exerciser

`htx_update` adds the bytes of a call to counters of two halves, the lower one meant for
nine decimal digits, and carries at most once.
-/

namespace Htx.Htx64

structure ByteCount where
  high : Nat
  low : Nat
  deriving DecidableEq

structure HtxData where
  bytesRead : Nat
  bytesWrit : Nat

structure ShmHE where
  bytesRead : ByteCount
  bytesWrit : ByteCount

def addw (c : ByteCount) (num : Nat) : ByteCount :=
  if 999999999 < c.low + num then ⟨c.high + 1, c.low + num - 1000000000⟩
  else ⟨c.high, c.low + num⟩

/-- The counters' part of `htx_update`, which an `UPDATE`, `ERROR` or `FINISH` call runs. -/
def htxUpdate (he : ShmHE) (data : HtxData) : ShmHE :=
  ⟨addw he.bytesRead data.bytesRead, addw he.bytesWrit data.bytesWrit⟩

/-- Shared memory after the calls of an exerciser that `htx_start` has entered. -/
def hxfupdateCalls (calls : List HtxData) : ShmHE :=
  calls.foldl htxUpdate ⟨⟨0, 0⟩, ⟨0, 0⟩⟩

/-- The number `hxstats` prints: the halves side by side, the lower one with at least
nine digits. -/
def ByteCount.printed (c : ByteCount) : Nat :=
  if c.high = 0 then c.low else c.high * 10 ^ max 9 (Nat.digits 10 c.low).length + c.low

structure ByteCount.Exact (c : ByteCount) (total : Nat) : Prop where
  total_eq : c.high * 10 ^ 9 + c.low = total
  low_le : c.low ≤ 999999999
  printed_eq : c.printed = total

def OneCarry (total num : Nat) : Prop :=
  total % 10 ^ 9 + num < 2 * 10 ^ 9

theorem addw_total (c : ByteCount) (num : Nat) :
    (addw c num).high * 10 ^ 9 + (addw c num).low = c.high * 10 ^ 9 + c.low + num := by
  unfold addw
  split_ifs <;> dsimp only <;> omega

theorem addw_low_le_iff {c : ByteCount} (h : c.low ≤ 999999999) (num : Nat) :
    (addw c num).low ≤ 999999999 <-> OneCarry (c.high * 10 ^ 9 + c.low) num := by
  have hlow : (c.high * 10 ^ 9 + c.low) % 10 ^ 9 = c.low := by omega
  rw [OneCarry, hlow]
  unfold addw
  split_ifs <;> dsimp only <;> omega

theorem exact_of_low_le {c : ByteCount} {total : Nat} (htotal : c.high * 10 ^ 9 + c.low = total)
    (hlow : c.low ≤ 999999999) : c.Exact total := by
  refine ⟨htotal, hlow, ?_⟩
  have hdigits : (Nat.digits 10 c.low).length ≤ 9 :=
    (Nat.digits_length_le_iff (by decide) _).mpr (by omega)
  unfold ByteCount.printed
  rw [max_eq_left hdigits]
  split_ifs with hhigh
  · rw [hhigh] at htotal
    omega
  · exact htotal

theorem addw_exact_iff {c : ByteCount} {total : Nat} (h : c.Exact total) (num : Nat) :
    (addw c num).Exact (total + num) <-> OneCarry total num := by
  have hlow := addw_low_le_iff h.low_le num
  rw [h.total_eq] at hlow
  rw [← hlow]
  refine ⟨ByteCount.Exact.low_le, exact_of_low_le ?_⟩
  rw [addw_total, h.total_eq]

/-- Both counters are exact after every call exactly if no call needs a second carry. -/
theorem counters_exact_iff (calls : List HtxData) :
    (forall front, front <+: calls ->
      (hxfupdateCalls front).bytesRead.Exact (front.map (·.bytesRead)).sum ∧
        (hxfupdateCalls front).bytesWrit.Exact (front.map (·.bytesWrit)).sum) <->
    forall front data, front ++ [data] <+: calls ->
      OneCarry (front.map (·.bytesRead)).sum data.bytesRead ∧
        OneCarry (front.map (·.bytesWrit)).sum data.bytesWrit := by
  have hfront {front : List HtxData} {data : HtxData} (h : front ++ [data] <+: calls) :
      front <+: calls := (List.prefix_append front [data]).trans h
  -- One call keeps both counters exact if it needs no second carry.
  have hstep {front : List HtxData} (data : HtxData)
      (h : (hxfupdateCalls front).bytesRead.Exact (front.map (·.bytesRead)).sum ∧
        (hxfupdateCalls front).bytesWrit.Exact (front.map (·.bytesWrit)).sum) :=
    and_congr (addw_exact_iff h.1 data.bytesRead) (addw_exact_iff h.2 data.bytesWrit)
  constructor
  · intro h front data hcalls
    refine (hstep data (h front (hfront hcalls))).mp ?_
    simpa [hxfupdateCalls, htxUpdate] using h _ hcalls
  · intro h front hcalls
    induction front using List.reverseRecOn with
    | nil => exact ⟨exact_of_low_le rfl (by decide), exact_of_low_le rfl (by decide)⟩
    | append_singleton front data ih =>
      have hdata := (hstep data (ih (hfront hcalls))).mpr (h front data hcalls)
      simpa [hxfupdateCalls, htxUpdate] using hdata

/-- One call with three thousand million bytes read. -/
theorem large_call_miscounted :
    (hxfupdateCalls [⟨3000000000, 0⟩]).bytesRead = ⟨1, 2000000000⟩ ∧
      (hxfupdateCalls [⟨3000000000, 0⟩]).bytesRead.printed = 12000000000 := by
  refine ⟨rfl, ?_⟩
  norm_num [hxfupdateCalls, htxUpdate, addw, ByteCount.printed]

end Htx.Htx64
