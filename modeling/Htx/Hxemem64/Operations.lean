import Htx.Library.StoreLoop

/-!
# Memory operations

The routines that write, read and compare a segment: with an eight byte pattern, with a
longer pattern, with the addresses of the memory itself, and with random numbers that only
a seed remembers.
-/

namespace Htx.Hxemem64

open Library

inductive PatternType where
  | sizeNormal
  | sizeBig
  | address
  | random
  deriving DecidableEq

inductive BasicOper where
  | write
  | read
  | compare
  deriving DecidableEq

inductive Width where
  | dword
  | word
  | byte
  deriving DecidableEq

def Width.bytes : Width -> Nat
  | dword => 8
  | word => 4
  | byte => 1

def minPatternSize : Nat :=
  8

def maxPatternSize : Nat :=
  4096

structure Pattern where
  type : PatternType
  size : Nat
  data : Memory
  size_pow : exists k, size = minPatternSize * 2 ^ k
  size_le : size ≤ maxPatternSize
  size_normal : type = .sizeNormal -> size = minPatternSize
  size_big : type = .sizeBig -> minPatternSize < size

structure RandR where
  next : UInt32 -> UInt32 × UInt32
  nonneg : forall seed, (next seed).1.toNat < 2 ^ 31

structure Machine where
  order : ByteOrder
  randR : RandR
  uninit : UInt64

def toInt (n : Nat) : Int :=
  (BitVec.ofNat 32 n).toInt

def toUnsigned (n : Int) : Nat :=
  (n % 2 ^ 32).toNat

/-!
# Random numbers
-/

section

variable (mach : Machine)

section

variable (lseed : UInt64)

def seedWord : UInt32 :=
  match mach.order with
  | .little => lseed.toUInt32
  | .big => (lseed >>> 32).toUInt32

def setSeedWord (word : UInt32) : UInt64 :=
  match mach.order with
  | .little => (lseed >>> 32) <<< 32 ||| word.toUInt64
  | .big => word.toUInt64 <<< 32 ||| lseed.toUInt32.toUInt64

def callRandR : UInt32 × UInt64 :=
  let r := mach.randR.next (seedWord mach lseed)
  (r.1, setSeedWord mach lseed r.2)

def getRandomNo8 : UInt8 × UInt64 :=
  let tmp := callRandR mach lseed
  ((tmp.1 % 255).toUInt8, tmp.2)

def getRandomNo32 : UInt32 × UInt64 :=
  callRandR mach lseed

def getRandomNo64 : UInt64 × UInt64 :=
  let tmp := callRandR mach lseed
  -- *lseed = tmp
  let low := callRandR mach tmp.1.toUInt64
  (tmp.1.toUInt64 <<< 32 ||| low.1.toUInt64, low.2)

end

def getRandomNo : Width -> UInt64 -> UInt64
  | .dword, lseed => (getRandomNo64 mach lseed).1
  | .word, lseed => (getRandomNo32 mach lseed).1.toUInt64
  | .byte, lseed => (getRandomNo8 mach lseed).1.toUInt64

structure RandLoop where
  lseed : UInt64
  randNo : UInt64

def randStep (w : Width) : Generator RandLoop :=
  fun s => ((getRandomNo mach w s.lseed).toNat,
    ⟨getRandomNo mach w s.lseed, getRandomNo mach w s.lseed⟩)

theorem getRandomNo_lt (w : Width) (lseed : UInt64) :
    (getRandomNo mach w lseed).toNat < 256 ^ w.bytes := by
  cases w with
  | dword => exact UInt64.toNat_lt _
  | word =>
    simpa [getRandomNo, Width.bytes] using UInt32.toNat_lt (getRandomNo32 mach lseed).1
  | byte =>
    simpa [getRandomNo, Width.bytes] using UInt8.toNat_lt (getRandomNo8 mach lseed).1

theorem randStep_lt (w : Width) (s : RandLoop) : (randStep mach w s).1 < 256 ^ w.bytes :=
  getRandomNo_lt mach w s.lseed

end

/-!
# The routines
-/

structure Outcome where
  rc : Nat
  memory : Memory
  seed : UInt64

abbrev Operation :=
  Int -> Nat -> Pattern -> UInt64 -> Memory -> Outcome

def rcOf : Option Nat -> Nat
  | none => 0
  | some i => i + 1

@[simp]
theorem rcOf_eq_zero_iff (r : Option Nat) : rcOf r = 0 <-> r = none := by
  cases r <;> simp [rcOf]

section

variable (mach : Machine)

def normalStep (w : Width) (pattern : Pattern) : Generator Unit :=
  fun s => (pattern.data.load mach.order 0 w.bytes, s)

def memOperationWrite (w : Width) : Operation := fun numOperations segAddress pattern seed m =>
  ⟨0, (storeLoop mach.order w.bytes (normalStep mach w pattern) numOperations.toNat
    segAddress () m).1, seed⟩

def memOperationWriteDword : Operation :=
  memOperationWrite mach .dword

def memOperationWriteWord : Operation :=
  memOperationWrite mach .word

def memOperationWriteByte : Operation :=
  memOperationWrite mach .byte

def memOperationRead : Operation := fun _ _ _ seed m =>
  ⟨0, m, seed⟩

def memOperationComp (w : Width) : Operation := fun numOperations segAddress pattern seed m =>
  ⟨rcOf (compareLoop mach.order w.bytes (normalStep mach w pattern) numOperations.toNat 0
    segAddress () m).1, m, seed⟩

def memOperationCompDword : Operation :=
  memOperationComp mach .dword

def memOperationCompWord : Operation :=
  memOperationComp mach .word

def memOperationCompByte : Operation :=
  memOperationComp mach .byte

def addrStep : Generator (UInt64 × Nat) :=
  fun s => (s.1.toNat, UInt64.ofNat (s.2 + 8), s.2 + 8)

def addrStart (segAddress : Nat) (m : Memory) : UInt64 × Nat :=
  (UInt64.ofNat (m.load mach.order segAddress 8), segAddress)

def memOperationWriteAddr : Operation := fun numOperations segAddress _ seed m =>
  ⟨0, (storeLoop mach.order 8 addrStep numOperations.toNat segAddress
    (addrStart mach segAddress m) m).1, seed⟩

def memOperationCompAddr : Operation := fun numOperations segAddress _ seed m =>
  ⟨rcOf (compareLoop mach.order 8 addrStep numOperations.toNat 0 segAddress
    (addrStart mach segAddress m) m).1, m, seed⟩

def patStep (w : Width) (pattern : Pattern) : Generator Nat :=
  fun i => (pattern.data.load mach.order (i * w.bytes) w.bytes, i + 1)

def patLimit (pattern : Pattern) : Nat :=
  pattern.size / 8

-- `num_operations/pat_limit` is a division of unsigned numbers
def patOperationWrite (w : Width) : Operation := fun numOperations segAddress pattern seed m =>
  ⟨0, storeBlocks mach.order w.bytes (patStep mach w pattern) (patLimit pattern) 0
    (toUnsigned numOperations / patLimit pattern) segAddress m, seed⟩

def patOperationWriteDword : Operation :=
  patOperationWrite mach .dword

def patOperationWriteWord : Operation :=
  patOperationWrite mach .word

def patOperationWriteByte : Operation :=
  patOperationWrite mach .byte

def patOperationComp (w : Width) : Operation := fun numOperations segAddress pattern seed m =>
  ⟨rcOf (compareBlocks mach.order w.bytes (patStep mach w pattern) (patLimit pattern) 0
    (toUnsigned numOperations / patLimit pattern) 0 segAddress m), m, seed⟩

def patOperationCompDword : Operation :=
  patOperationComp mach .dword

def patOperationCompWord : Operation :=
  patOperationComp mach .word

def patOperationCompByte : Operation :=
  patOperationComp mach .byte

def randOperationWrite (w : Width) (first : UInt64 -> UInt64) : Operation :=
  fun numOperations segAddress _ seed m =>
    let r := storeLoop mach.order w.bytes (randStep mach w) numOperations.toNat segAddress
      ⟨seed, first seed⟩ m
    ⟨0, r.1, r.2.randNo⟩

def randOperationWriteDword : Operation :=
  randOperationWrite mach .dword fun _ => mach.uninit

def randOperationWriteWord : Operation :=
  randOperationWrite mach .word fun seed => seed.toUInt32.toUInt64

def randOperationWriteByte : Operation :=
  randOperationWrite mach .byte fun _ => mach.uninit.toUInt8.toUInt64

def randOperationComp (w : Width) (first : UInt64 -> UInt64) : Operation :=
  fun numOperations segAddress _ seed m =>
    let r := compareLoop mach.order w.bytes (randStep mach w) numOperations.toNat 0
      segAddress ⟨seed, first seed⟩ m
    ⟨rcOf r.1, m, r.2.randNo⟩

def randOperationCompDword : Operation :=
  randOperationComp mach .dword fun _ => mach.uninit

def randOperationCompWord : Operation :=
  randOperationComp mach .word fun seed => seed.toUInt32.toUInt64

def randOperationCompByte : Operation :=
  randOperationComp mach .byte fun seed => seed.toUInt8.toUInt64

def operationFunTyp : PatternType -> BasicOper -> Width -> Option Operation
  | .sizeNormal, .write, .dword => some (memOperationWriteDword mach)
  | .sizeNormal, .write, .word => some (memOperationWriteWord mach)
  | .sizeNormal, .write, .byte => some (memOperationWriteByte mach)
  | .sizeNormal, .read, _ => some memOperationRead
  | .sizeNormal, .compare, .dword => some (memOperationCompDword mach)
  | .sizeNormal, .compare, .word => some (memOperationCompWord mach)
  | .sizeNormal, .compare, .byte => some (memOperationCompByte mach)
  | .sizeBig, .write, .dword => some (patOperationWriteDword mach)
  | .sizeBig, .write, .word => some (patOperationWriteWord mach)
  | .sizeBig, .write, .byte => some (patOperationWriteByte mach)
  | .sizeBig, .read, _ => some memOperationRead
  | .sizeBig, .compare, .dword => some (patOperationCompDword mach)
  | .sizeBig, .compare, .word => some (patOperationCompWord mach)
  | .sizeBig, .compare, .byte => some (patOperationCompByte mach)
  | .address, .write, .dword => some (memOperationWriteAddr mach)
  | .address, .read, .dword => some memOperationRead
  | .address, .compare, .dword => some (memOperationCompAddr mach)
  | .address, _, _ => none
  | .random, .write, .dword => some (randOperationWriteDword mach)
  | .random, .write, .word => some (randOperationWriteWord mach)
  | .random, .write, .byte => some (randOperationWriteByte mach)
  | .random, .read, _ => some memOperationRead
  | .random, .compare, .dword => some (randOperationCompDword mach)
  | .random, .compare, .word => some (randOperationCompWord mach)
  | .random, .compare, .byte => some (randOperationCompByte mach)

end

def memAccess (pattern : Pattern) (width : Width) : Width :=
  match pattern.type with
  | .address => .dword
  | _ => width

structure Segment where
  address : Nat
  size : Nat

def callOperation (mach : Machine) (oper : BasicOper) (pattern : Pattern) (width : Width)
    (seg : Segment) (seed : UInt64) (m : Memory) : Option Outcome :=
  (operationFunTyp mach pattern.type oper (memAccess pattern width)).map fun operation =>
    operation (toInt (seg.size / (memAccess pattern width).bytes)) seg.address pattern seed m

end Htx.Hxemem64
