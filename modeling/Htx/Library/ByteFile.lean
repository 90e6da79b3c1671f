import Mathlib

/-!
# Files as byte sequences

A write at a position may start behind the end of the file, which then reads as
zeros up to the position.  A write of no bytes does not extend the file.
-/

namespace Htx.Library.ByteFile

def pwrite (file : List UInt8) (pos : Nat) (data : List UInt8) : List UInt8 :=
  if data = [] then file
  else
    file.take pos ++ List.replicate (pos - file.length) 0 ++ data ++ file.drop (pos + data.length)

def resize (file : List UInt8) (size : Nat) : List UInt8 :=
  file.take size ++ List.replicate (size - file.length) 0

variable {file data : List UInt8} {pos : Nat}

theorem resize_of_le {size : Nat} (h : size ≤ file.length) : resize file size = file.take size := by
  simp [resize, Nat.sub_eq_zero_of_le h]

section

variable (h : pos ≤ file.length)

include h

theorem pwrite_of_le :
    pwrite file pos data = file.take pos ++ data ++ file.drop (pos + data.length) := by
  by_cases hdata : data = []
  · simp [pwrite, hdata]
  · simp [pwrite, hdata, Nat.sub_eq_zero_of_le h]

theorem length_pwrite : pos + data.length ≤ (pwrite file pos data).length := by
  rw [pwrite_of_le h]
  simp only [List.length_append, List.length_take, List.length_drop]
  omega

theorem take_pwrite : (pwrite file pos data).take (pos + data.length) = file.take pos ++ data := by
  have hlength : (file.take pos ++ data).length = pos + data.length := by
    simp [min_eq_left h]
  rw [pwrite_of_le h, ← hlength, List.take_left]

theorem resize_pwrite :
    resize (pwrite file pos data) (pos + data.length) = file.take pos ++ data := by
  rw [resize_of_le (length_pwrite h), take_pwrite h]

end

end Htx.Library.ByteFile
