import Htx.Hxestorage.Compare
import Htx.Hxestorage.DataBuffer

/-!
# Reading what another thread wrote

A block on the disk may come from any thread that uses the same pattern, and its header
may have been refreshed any number of times since it was built.  A thread that reads it
builds the block for itself and compares.
-/

namespace Htx.Hxestorage

open Library Memory Nat BufferEnv

/-!
# Headers
-/

structure HeaderOf (env : BufferEnv) (m : Memory) (a lba : Nat) (time : UInt32) : Prop where
  signature : m.bytes (a + bufsigPos) bufsigLen = bufsig
  hostname : m.bytes (a + hostnamePos) hostnameLen = env.hostname.toList
  devName : m.bytes (a + devNamePos) devNameLen = env.devName.toList
  lba : m.load env.order (a + lbaPos) lbaLen = lba % 256 ^ lbaLen
  time : m.load env.order (a + timeStampPos) timeStampLen = time.toNat
  sum : wordSum env.order m a overhead % 2 ^ 16 = 0

section

variable {env : BufferEnv} {order : ByteOrder} {m : Memory} {a lba i : Nat}
  {tctx : BufferContext} {writeStamp : UInt16} {time curTime : UInt32}

theorem updateChecksum_of_outside (h : i < a ∨ a + headerSize ≤ i) :
    updateChecksum order m a i = m i :=
  store_field_of_outside (by decide) h

theorem bytes_updateChecksum {q k : Nat} (h : q + k ≤ checksumPos) :
    (updateChecksum order m a).bytes (a + q) k = m.bytes (a + q) k :=
  bytes_store_field (.inl h)

theorem load_updateChecksum {q k : Nat} (h : q + k ≤ checksumPos) :
    (updateChecksum order m a).load order (a + q) k = m.load order (a + q) k :=
  load_store_field (.inl h)

theorem wordSum_updateChecksum :
    wordSum order (updateChecksum order m a) a overhead % 2 ^ 16 = 0 := by
  have hwords : wordSum order (updateChecksum order m a) a (overhead - 1) =
      wordSum order m a (overhead - 1) := by
    apply wordSum_congr
    intro i hi
    apply store_of_outside
    left
    exact Nat.add_lt_add_left hi a
  have hlast : (updateChecksum order m a).load order (a + 2 * (overhead - 1)) 2 =
      ((-(wordSum order m a (overhead - 1) % 2 ^ 16 : Nat) : Int) % 2 ^ 16).toNat := by
    refine Eq.trans load_store_self (mod_eq_of_lt ?_)
    omega
  have hsum : wordSum order (updateChecksum order m a) a overhead =
      wordSum order (updateChecksum order m a) a (overhead - 1) +
        (updateChecksum order m a).load order (a + 2 * (overhead - 1)) 2 := rfl
  rw [hsum, hlast, hwords]
  omega

theorem bldHeader_headerOf (hoff : env.enableStateTable = false) :
    HeaderOf env (bldHeader env tctx writeStamp lba curTime m a) a lba curTime := by
  unfold bldHeader
  simp only [hoff, Bool.false_eq_true, if_false]
  -- what is stored after a field lies behind it
  constructor
  · rw [bytes_updateChecksum (by decide)]
    exact bytes_put_self rfl
  · rw [bytes_updateChecksum (by decide)]
    simp (disch := (left; decide)) only [bytes_put_field, bytes_store_field]
    exact bytes_put_self Vector.length_toList
  · rw [bytes_updateChecksum (by decide)]
    simp (disch := (left; decide)) only [bytes_put_field, bytes_store_field]
    exact bytes_put_self Vector.length_toList
  · rw [load_updateChecksum (by decide)]
    simp (disch := (left; decide)) only [load_put_field, load_store_field]
    exact load_store_self
  · rw [load_updateChecksum (by decide)]
    simp (disch := (left; decide)) only [load_put_field, load_store_field]
    rw [load_store_self]
    exact mod_eq_of_lt curTime.toNat_lt
  · exact wordSum_updateChecksum

theorem bldHeader_of_outside (h : i < a ∨ a + headerSize ≤ i) :
    bldHeader env tctx writeStamp lba curTime m a i = m i := by
  have hvector : forall {n p : Nat} (v : Vector UInt8 n), p + n ≤ headerSize ->
      p + v.toList.length ≤ headerSize := by
    intro n p v hfit
    rwa [Vector.length_toList]
  unfold bldHeader
  rw [updateChecksum_of_outside h, put_field_of_outside (by decide) h,
    put_field_of_outside (by decide) h,
    store_field_of_outside (by decide) h,
    put_field_of_outside (hvector _ (by decide)) h,
    put_field_of_outside (hvector _ (by decide)) h,
    put_field_of_outside (hvector _ (by decide)) h,
    store_field_of_outside (by decide) h,
    store_field_of_outside (by decide) h]

theorem refreshHeader_headerOf (h : HeaderOf env m a lba time) :
    HeaderOf env (refreshHeader env.order writeStamp curTime m a) a lba curTime := by
  unfold refreshHeader
  constructor
  · rw [bytes_updateChecksum (by decide), bytes_store_field (.inr (by decide)),
      bytes_store_field (.inr (by decide))]
    exact h.signature
  · rw [bytes_updateChecksum (by decide), bytes_store_field (.inl (by decide)),
      bytes_store_field (.inr (by decide))]
    exact h.hostname
  · rw [bytes_updateChecksum (by decide), bytes_store_field (.inl (by decide)),
      bytes_store_field (.inr (by decide))]
    exact h.devName
  · rw [load_updateChecksum (by decide), load_store_field (.inl (by decide)),
      load_store_field (.inl (by decide))]
    exact h.lba
  · rw [load_updateChecksum (by decide), load_store_field (.inl (by decide)), load_store_self]
    exact mod_eq_of_lt curTime.toNat_lt
  · exact wordSum_updateChecksum

theorem refreshHeader_of_outside (h : i < a ∨ a + headerSize ≤ i) :
    refreshHeader order writeStamp curTime m a i = m i := by
  unfold refreshHeader
  rw [updateChecksum_of_outside h, store_field_of_outside (by decide) h,
    store_field_of_outside (by decide) h]

end

/-!
# Blocks
-/

structure BufferEnv.Regular (env : BufferEnv) : Prop where
  header : headerSize ≤ env.blksize
  words : 4 ∣ env.blksize
  single : env.numSubBlks = 0
  table : env.enableStateTable = false

structure BlockOf (env : BufferEnv) (tctx : BufferContext) (m : Memory) (a lba : Nat)
    (time : UInt32) : Prop where
  header : HeaderOf env m a lba time
  payload : exists bytes, patternBytes env tctx lba = some bytes ∧
    forall i, i < env.blksize - headerSize -> m (a + headerSize + i) = bytes.getD i 0

section

variable {env : BufferEnv} {tctx : BufferContext} {m m' : Memory} {a b lba : Nat} {time : UInt32}

theorem HeaderOf.copy (h : HeaderOf env m a lba time)
    (hsame : forall i, i < headerSize -> m' (b + i) = m (a + i)) :
    HeaderOf env m' b lba time := by
  have hfield : forall p k, p + k ≤ headerSize -> m'.bytes (b + p) k = m.bytes (a + p) k := by
    intro p k hfit
    rw [bytes_eq_iff]
    intro i hi
    rw [add_assoc, add_assoc]
    exact hsame (p + i) (by omega)
  have hnumber : forall p k, p + k ≤ headerSize ->
      m'.load env.order (b + p) k = m.load env.order (a + p) k := by
    intro p k hfit
    exact congrArg env.order.decode (hfield p k hfit)
  have hsum : wordSum env.order m' b overhead = wordSum env.order m a overhead :=
    wordSum_congr hsame
  exact ⟨(hfield _ _ (by decide)).trans h.signature,
    (hfield _ _ (by decide)).trans h.hostname, (hfield _ _ (by decide)).trans h.devName,
    (hnumber _ _ (by decide)).trans h.lba, (hnumber _ _ (by decide)).trans h.time,
    (congrArg (· % 2 ^ 16) hsum).trans h.sum⟩

theorem BlockOf.copy (hreg : env.Regular) (h : BlockOf env tctx m a lba time)
    (hsame : forall i, i < env.blksize -> m' (b + i) = m (a + i)) :
    BlockOf env tctx m' b lba time := by
  have hheader := hreg.header
  rcases h.payload with ⟨bytes, hbytes, hpayload⟩
  refine ⟨h.header.copy fun i hi => hsame i (by omega), bytes, hbytes, ?_⟩
  intro i hi
  rw [← hpayload i hi, add_assoc, add_assoc]
  exact hsame (headerSize + i) (by omega)

theorem BlockOf.refresh (h : BlockOf env tctx m a lba time) (writeStamp : UInt16)
    (curTime : UInt32) :
    BlockOf env tctx (refreshHeader env.order writeStamp curTime m a) a lba curTime := by
  rcases h.payload with ⟨bytes, hbytes, hpayload⟩
  refine ⟨refreshHeader_headerOf h.header, bytes, hbytes, ?_⟩
  intro i hi
  rw [refreshHeader_of_outside (Or.inr (le_add_right _ _))]
  exact hpayload i hi

end

/-!
# Patterns
-/

section

variable {env : BufferEnv} {tctx : BufferContext}

open List

theorem length_wordPairs (second : Nat -> Nat) (n i : Nat) :
    (wordPairs second n i).length = 2 * n := by
  induction n generalizing i with
  | zero => rfl
  | succ n ih =>
    simp only [wordPairs, length_cons, ih]
    omega

theorem length_lines (lineLength n i : Nat) (ones : Bool) :
    (lines lineLength n i ones).length = n := by
  induction n generalizing i ones with
  | zero => rfl
  | succ n ih => simp only [lines, length_cons, apply_ite length, ih, ite_self]

theorem length_wordBytes (order : ByteOrder) (words : List Nat) :
    (wordBytes order words).length = 2 * words.length := by
  induction words with
  | nil => rfl
  | cons w rest ih =>
    have hcons : wordBytes order (w :: rest) = order.encode 2 w ++ wordBytes order rest :=
      flatMap_cons
    rw [hcons, length_append, ByteOrder.length_encode, ih, length_cons]
    omega

theorem patternBytes_getBufAlignment (hreg : env.Regular) (lba : Nat) :
    exists bytes, patternBytes env (getBufAlignment tctx) lba = some bytes ∧
      bytes.length = env.blksize - headerSize := by
  have hwords : (env.blksize - headerSize) / 2 % 2 = 0 ∧
      2 * (2 * ((env.blksize - headerSize) / 4)) = env.blksize - headerSize := by
    have hdvd := hreg.words
    unfold headerSize
    omega
  have hpairs : forall second, exists bytes,
      (pairLoop second (env.blksize - headerSize)).map (wordBytes env.order) = some bytes ∧
        bytes.length = env.blksize - headerSize := by
    intro second
    refine ⟨_, by rw [pairLoop, if_pos hwords.1, Option.map_some], ?_⟩
    rw [length_wordBytes, length_wordPairs, hwords.2]
  have hpattern : (getBufAlignment tctx).pattern = tctx.pattern := by
    unfold getBufAlignment
    split
    · rfl
    · split <;> rfl
  unfold patternBytes
  rw [hpattern]
  cases hp : tctx.pattern with
  | p3 => exact hpairs _
  | p4 =>
    refine ⟨_, rfl, ?_⟩
    rw [length_wordBytes, generatePattern4, length_replicate]
    omega
  | p5 => exact hpairs _
  | p7 =>
    have halign : (getBufAlignment tctx).align ≠ 0 := by
      unfold getBufAlignment
      rw [hp]
      split
      · exact ne_of_gt ‹_›
      · show 16 ≠ 0
        decide
    refine ⟨_, if_neg fun hnone => halign hnone.1, ?_⟩
    exact length_lines _ _ _ _

end

/-!
# Buffers
-/

variable {clock : Nat -> UInt32}

section

variable {env : BufferEnv} {tctx : BufferContext} {m m' : Memory}

def BlocksFrom (env : BufferEnv) (tctx : BufferContext) (m : Memory) (a lba n : Nat)
    (clock : Nat -> UInt32) : Prop :=
  forall k, k < n -> BlockOf env tctx m (a + k * env.blksize) (lba + k) (clock k)

theorem next_block (a k size : Nat) : a + (k + 1) * size = a + size + k * size := by
  rw [succ_mul]
  omega

theorem next_lba (lba k : Nat) : lba + (k + 1) = lba + 1 + k := by
  omega

theorem bldBlocks_spec (hreg : env.Regular) (writeStamp : UInt16) (clock : Nat -> UInt32)
    (lba n a : Nat) (m : Memory) :
    exists m', bldBlocks env (getBufAlignment tctx) writeStamp clock lba n a m = some m' ∧
      (forall i, i < a -> m' i = m i) ∧
      BlocksFrom env (getBufAlignment tctx) m' a lba n clock := by
  induction n generalizing lba a m clock with
  | zero => exact ⟨m, rfl, fun _ _ => rfl, fun k hk => absurd hk (not_lt_zero k)⟩
  | succ n ih =>
    rcases @patternBytes_getBufAlignment env tctx hreg lba with ⟨bytes, hbytes, hlen⟩
    have hheader := hreg.header
    have hnext : a + headerSize + (env.blksize - headerSize) / 2 * 2 = a + env.blksize := by
      have hdvd := hreg.words
      unfold headerSize at hheader ⊢
      omega
    rw [bldBlocks, hbytes]
    simp only [hnext]
    rcases ih (fun k => clock (k + 1)) (lba + 1) (a + env.blksize)
      ((bldHeader env (getBufAlignment tctx) writeStamp lba (clock 0) m a).put
        (a + headerSize) bytes) with ⟨m', hrest, hframe, hblocks⟩
    refine ⟨m', hrest, ?_, ?_⟩
    · intro i hi
      rw [hframe i (by omega), put_of_outside (by omega), bldHeader_of_outside (Or.inl hi)]
    · intro k hk
      cases k with
      | zero =>
        rw [zero_mul, add_zero, add_zero]
        constructor
        · refine (@bldHeader_headerOf env m a lba (getBufAlignment tctx) writeStamp
            (clock 0) hreg.table).copy fun i hi => ?_
          rw [hframe _ (by omega), put_of_outside (by omega)]
        · refine ⟨bytes, hbytes, fun i hi => ?_⟩
          rw [hframe _ (by omega), put, if_pos (by omega), Nat.add_sub_cancel_left]
      | succ k =>
        have hblock := hblocks k (lt_of_succ_lt_succ hk)
        rw [next_block, next_lba]
        exact hblock

theorem bldBuf_spec (hreg : env.Regular) (writeStamp : UInt16) (clock : Nat -> UInt32)
    (m : Memory) :
    exists m', bldBuf env (getBufAlignment tctx) writeStamp clock m = some m' ∧
      BlocksFrom env (getBufAlignment tctx) m' 0 (getBufAlignment tctx).blkno
        (getBufAlignment tctx).numBlks clock := by
  rcases @bldBlocks_spec env tctx hreg writeStamp clock (getBufAlignment tctx).blkno
    (getBufAlignment tctx).numBlks 0 m with ⟨m', hbuild, _, hblocks⟩
  refine ⟨m', ?_, hblocks⟩
  rw [bldBuf, if_pos (.inl hreg.single)]
  exact hbuild

theorem refreshHeaders_spec (hreg : env.Regular) {writeStamp : UInt16} {curTime : UInt32}
    {a lba n : Nat} (h : BlocksFrom env tctx m a lba n clock) :
    (forall i, i < a -> refreshHeaders env writeStamp curTime n a m i = m i) ∧
      BlocksFrom env tctx (refreshHeaders env writeStamp curTime n a m) a lba n
        fun _ => curTime := by
  induction n generalizing a lba m clock with
  | zero => exact ⟨fun _ _ => rfl, fun k hk => absurd hk (not_lt_zero k)⟩
  | succ n ih =>
    have hheader := hreg.header
    have hstep : env.blksize / (env.numSubBlks + 1) = env.blksize := by
      rw [hreg.single, Nat.zero_add, Nat.div_one]
    have hafter : forall i, a + env.blksize ≤ i ->
        refreshHeader env.order writeStamp curTime m a i = m i := by
      intro i hi
      exact refreshHeader_of_outside (Or.inr (by omega))
    have hrest : BlocksFrom env tctx (refreshHeader env.order writeStamp curTime m a)
        (a + env.blksize) (lba + 1) n (fun k => clock (k + 1)) := by
      intro k hk
      have hblock := h (k + 1) (succ_lt_succ hk)
      rw [next_block, next_lba] at hblock
      refine hblock.copy hreg fun i _ => ?_
      exact hafter _ (by omega)
    rcases ih hrest with ⟨hframe, hblocks⟩
    rw [refreshHeaders, hstep]
    constructor
    · intro i hi
      rw [hframe i (by omega), refreshHeader_of_outside (Or.inl hi)]
    · intro k hk
      cases k with
      | zero =>
        have hfirst := h 0 (succ_pos n)
        rw [zero_mul, add_zero, add_zero] at hfirst ⊢
        refine (hfirst.refresh writeStamp curTime).copy hreg fun i hi => ?_
        exact hframe _ (by omega)
      | succ k =>
        have hblock := hblocks k (lt_of_succ_lt_succ hk)
        rw [next_block, next_lba]
        exact hblock

inductive Written (env : BufferEnv) (tctx : BufferContext) : Memory -> (Nat -> UInt32) -> Prop
  | built {writeStamp : UInt16} {clock : Nat -> UInt32} {m m' : Memory} :
      bldBuf env tctx writeStamp clock m = some m' -> Written env tctx m' clock
  | refreshed {writeStamp : UInt16} {curTime : UInt32} {clock : Nat -> UInt32} {m : Memory} :
      Written env tctx m clock ->
      Written env tctx (updateHeader env tctx writeStamp curTime m) fun _ => curTime

theorem Written.blocks (hreg : env.Regular) (h : Written env (getBufAlignment tctx) m clock) :
    BlocksFrom env (getBufAlignment tctx) m 0 (getBufAlignment tctx).blkno
      (getBufAlignment tctx).numBlks clock := by
  induction h with
  | @built writeStamp clock m m' hbuild =>
    rcases @bldBuf_spec env tctx hreg writeStamp clock m with ⟨m1, hm1, hblocks⟩
    rw [hm1] at hbuild
    cases hbuild
    exact hblocks
  | refreshed _ ih =>
    unfold updateHeader
    rw [hreg.table, hreg.single, zero_add, mul_one]
    exact (refreshHeaders_spec hreg ih).2

end

/-!
# Comparing
-/

def BufferEnv.compareEnv (env : BufferEnv) (tctx : BufferContext) (timeMark : Nat) :
    CompareEnv where
  machine := ⟨env.order, false⟩
  blksize := env.blksize
  numSubBlks := env.numSubBlks
  discardEnabled := false
  enableStateTable := env.enableStateTable
  enablementTime := 0
  timeMark := timeMark
  numWritesRemaining := tctx.numWritesRemaining
  dlen := tctx.numBlks * env.blksize

section

variable {env : BufferEnv} {tctx : BufferContext} {wbuf rbuf : Memory} {timeMark : Nat}

theorem checkHeader_headerOf (hreg : env.Regular) (hwrites : tctx.numWritesRemaining ≤ 0)
    {i lba : Nat} {wtime rtime : UInt32} (hw : HeaderOf env wbuf i lba wtime)
    (hr : HeaderOf env rbuf i lba rtime) (hmark : timeMark ≤ rtime.toNat)
    (hend : rtime.toNat < 2 ^ 31) :
    (checkHeader (env.compareEnv tctx timeMark) wbuf rbuf i).offset = headerSize ∧
      (checkHeader (env.compareEnv tctx timeMark) wbuf rbuf i).stale = false := by
  have hsigned : HeaderSigned wbuf rbuf i :=
    ⟨hr.signature, hw.signature, hr.hostname.trans hw.hostname.symm,
      hr.devName.trans hw.devName.symm⟩
  have hsummed : HeaderSummed env.order wbuf rbuf i := ⟨hr.sum, hr.lba.trans hw.lba.symm⟩
  have htime : timeBuffer (env.compareEnv tctx timeMark).machine rbuf i = rtime.toNat := by
    rw [timeBuffer_of_unsigned rfl]
    · exact congrArg Nat.cast hr.time
    · exact lt_of_eq_of_lt hr.time hend
  have hcontrol : (env.compareEnv tctx timeMark).controlTime = timeMark := by
    simp [CompareEnv.controlTime, compareEnv, hreg.table]
  refine checkHeader_of_recognised hwrites hsigned ?_ hsummed
  rw [htime, hcontrol]
  exact Int.ofNat_le.mpr hmark

theorem BlockOf.payload_eq {a lba : Nat} {wtime rtime : UInt32}
    (hw : BlockOf env tctx wbuf a lba wtime) (hr : BlockOf env tctx rbuf a lba rtime) {q : Nat}
    (hle : a + headerSize ≤ q) (hlt : q < a + env.blksize) : wbuf q = rbuf q := by
  rcases hw.payload with ⟨bytes, hbytes, hwq⟩
  rcases hr.payload with ⟨bytes', hbytes', hrq⟩
  rw [hbytes] at hbytes'
  cases hbytes'
  have hq : q = a + headerSize + (q - (a + headerSize)) := by
    omega
  rw [hq, hwq _ (by omega), hrq _ (by omega)]

theorem compareLoop_pass {cenv : CompareEnv} {limit : Nat} (hpos : 0 < cenv.cmpBytes)
    (hpass : forall i st, cenv.cmpBytes ∣ i -> i < limit -> st.errorFound = false ->
      exists st', compareBlock cenv wbuf rbuf i st = some st' ∧ st'.errorFound = false)
    {fuel i : Nat} {st : CompareState} (hdvd : cenv.cmpBytes ∣ i) (hfuel : limit < i + fuel)
    (herror : st.errorFound = false) (hsome : fuel ≠ 0) :
    exists st', compareLoop cenv wbuf rbuf limit fuel i st = some st' ∧ st'.errorFound = false := by
  induction fuel generalizing i st with
  | zero => exact absurd rfl hsome
  | succ fuel ih =>
    rw [compareLoop]
    by_cases hlt : i < limit
    · rw [if_pos ⟨hlt, herror⟩]
      rcases hpass i st hdvd hlt herror with ⟨st1, hblock, herror1⟩
      rw [hblock]
      exact ih (dvd_add hdvd (dvd_refl _)) (by omega) herror1 (by omega)
    · rw [if_neg fun h => hlt h.1]
      exact ⟨st, rfl, herror⟩

end

/-!
# The range of a reader
-/

/-- Every block that was read comes from the buffer of some thread with the same
pattern and alignment, and its header was last touched at a time that is not
before `time_mark`. -/
def ReadBack (env : BufferEnv) (reader : BufferContext) (timeMark : Nat) (rbuf : Memory) :
    Prop :=
  forall k, k < reader.numBlks -> exists writer buf clock j,
    writer.pattern = reader.pattern ∧ writer.align = reader.align ∧
      Written env (getBufAlignment writer) buf clock ∧ j < writer.numBlks ∧
      writer.blkno + j = reader.blkno + k ∧ timeMark ≤ (clock j).toNat ∧
      (clock j).toNat < 2 ^ 31 ∧
      forall i, i < env.blksize -> rbuf (k * env.blksize + i) = buf (j * env.blksize + i)

section

variable {env : BufferEnv} {reader : BufferContext} {wbuf rbuf : Memory} {timeMark : Nat}

theorem getBufAlignment_range (tctx : BufferContext) : (getBufAlignment tctx).blkno = tctx.blkno ∧
      (getBufAlignment tctx).numBlks = tctx.numBlks := by
  unfold getBufAlignment
  split
  · exact ⟨rfl, rfl⟩
  · split <;> exact ⟨rfl, rfl⟩

theorem patternBytes_congr {t t' : BufferContext} (hpattern : t.pattern = t'.pattern)
    (halign : t.align = t'.align) (lba : Nat) :
    patternBytes env (getBufAlignment t) lba = patternBytes env (getBufAlignment t') lba := by
  have hsame : (getBufAlignment t).pattern = (getBufAlignment t').pattern ∧
      (getBufAlignment t).align = (getBufAlignment t').align := by
    unfold getBufAlignment
    rw [hpattern, halign]
    split
    · exact ⟨hpattern, halign⟩
    · split
      · exact ⟨rfl, rfl⟩
      · exact ⟨hpattern, halign⟩
  unfold patternBytes
  rw [hsame.1, hsame.2]

theorem ReadBack.block (hreg : env.Regular) (h : ReadBack env reader timeMark rbuf) {k : Nat}
    (hk : k < reader.numBlks) :
    exists time, BlockOf env (getBufAlignment reader) rbuf (k * env.blksize)
      (reader.blkno + k) time ∧ timeMark ≤ time.toNat ∧ time.toNat < 2 ^ 31 := by
  rcases h k hk with
    ⟨writer, buf, clock, j, hpattern, halign, hwritten, hj, hlba, hmark, hend, hsame⟩
  have hblock := hwritten.blocks hreg j (by rwa [(getBufAlignment_range writer).2])
  rw [(getBufAlignment_range writer).1, hlba, zero_add] at hblock
  rcases hblock.copy hreg hsame with ⟨hheader, bytes, hbytes, hpayload⟩
  rw [patternBytes_congr hpattern halign] at hbytes
  exact ⟨clock j, ⟨hheader, bytes, hbytes, hpayload⟩, hmark, hend⟩

theorem payload_index {size n k : Nat} (hsize : headerSize < size) (hk : k < n)
    (hwrap : size ∣ 2 ^ 32 ∨ n * size ≤ 2 ^ 32) :
    exists k', k' < n ∧ u32 (k * size + headerSize : Nat) = k' * size + headerSize := by
  have hu32 : forall x : Nat, u32 x = x % 2 ^ 32 := by
    intro x
    unfold u32
    omega
  rw [hu32]
  rcases hwrap with hdvd | hshort
  · have hmod : size ∣ k * size % 2 ^ 32 := (dvd_mod_iff hdvd).mpr (dvd_mul_left size k)
    rcases hmod with ⟨k', hk'⟩
    have hle : size * k' ≤ k * size := hk' ▸ mod_le _ _
    have hroom : size * k' + size ≤ 2 ^ 32 := by
      rcases hdvd with ⟨c, hc⟩
      have hlt : size * k' < size * c := by
        rw [← hk', ← hc]
        exact mod_lt _ (by decide)
      rw [hc]
      exact Nat.mul_le_mul_left size (Nat.lt_of_mul_lt_mul_left hlt)
    refine ⟨k', ?_, ?_⟩
    · rw [mul_comm k size] at hle
      have hpos : 0 < size := lt_of_le_of_lt (zero_le _) hsize
      exact lt_of_le_of_lt (le_of_mul_le_mul_left hle hpos) hk
    · rw [add_mod, hk', mul_comm k' size, mod_eq_of_lt]
      · rfl
      · have hsmall : headerSize % 2 ^ 32 = headerSize := rfl
        omega
  · refine ⟨k, hk, mod_eq_of_lt ?_⟩
    have hend : k * size + size ≤ n * size := by
      rw [← succ_mul]
      exact mul_le_mul_right size hk
    omega

theorem cmpBytes_compareEnv (hreg : env.Regular) :
    (env.compareEnv reader timeMark).cmpBytes = env.blksize := by
  unfold CompareEnv.cmpBytes compareEnv
  rw [hreg.single, Nat.zero_add, Nat.div_one]

theorem compareBlock_readBack (hreg : env.Regular) (hwrites : reader.numWritesRemaining ≤ 0)
    (hwrap : env.blksize ∣ 2 ^ 32 ∨ reader.numBlks * env.blksize ≤ 2 ^ 32)
    (hdisk : ReadBack env reader timeMark rbuf)
    (hbuf : BlocksFrom env (getBufAlignment reader) wbuf 0 reader.blkno reader.numBlks clock)
    {k : Nat} (hk : k < reader.numBlks) {st : CompareState} (herror : st.errorFound = false) :
    exists st', compareBlock (env.compareEnv reader timeMark) wbuf rbuf (k * env.blksize) st =
      some st' ∧ st'.errorFound = false := by
  have hskip : ¬ (env.compareEnv reader timeMark).Skipped wbuf (k * env.blksize) := by
    intro hskip
    exact Bool.false_ne_true (hreg.table.symm.trans hskip.1)
  have hpayload : forall j, j < reader.numBlks -> forall q, j * env.blksize + headerSize ≤ q ->
      q < j * env.blksize + env.blksize -> wbuf q = rbuf q := by
    intro j hj q hle hlt
    have hw := hbuf j hj
    rw [zero_add] at hw
    rcases hdisk.block hreg hj with ⟨time, hr, _, _⟩
    exact hw.payload_eq hr hle hlt
  have hw := hbuf k hk
  rw [zero_add] at hw
  rcases hdisk.block hreg hk with ⟨time, hr, hmark, hend⟩
  have hcheck := checkHeader_headerOf hreg hwrites hw.header hr.header hmark hend
  have hsame : forall j, j = u32 (k * env.blksize + headerSize : Nat) ->
      wbuf.bytes j (env.blksize - headerSize) = rbuf.bytes j (env.blksize - headerSize) := by
    intro j hj
    rw [bytes_eq_iff]
    intro i hi
    rcases payload_index (by omega) hk hwrap with ⟨k', hk', hindex⟩
    rw [hj, hindex]
    exact hpayload k' hk' _ (le_add_right _ _) (by omega)
  unfold compareBlock
  rw [if_neg hskip]
  simp only [hcheck.1, hcheck.2, cmpBytes_compareEnv hreg]
  rw [if_neg (not_lt.mpr hreg.header), if_pos (hsame _ rfl)]
  exact ⟨_, rfl, by rw [herror]; rfl⟩

end

/-- A thread that reads blocks of other threads with the same pattern and
alignment, and does not expect its own writes, finds no difference. -/
theorem doCompare_other_thread {env : BufferEnv} (hreg : env.Regular)
    {reader : BufferContext} (hwrites : reader.numWritesRemaining ≤ 0)
    (hwrap : env.blksize ∣ 2 ^ 32 ∨ reader.numBlks * env.blksize ≤ 2 ^ 32) {timeMark : Nat}
    {rbuf : Memory} (hdisk : ReadBack env reader timeMark rbuf) (writeStamp : UInt16)
    (clock : Nat -> UInt32) (m : Memory) :
    exists wbuf, bldBuf env (getBufAlignment reader) writeStamp clock m = some wbuf ∧
      exists st, doCompare (env.compareEnv reader timeMark) wbuf rbuf 0 = some (-1, st) := by
  rcases @bldBuf_spec env reader hreg writeStamp clock m with ⟨wbuf, hbuild, hblocks⟩
  rw [(getBufAlignment_range reader).1, (getBufAlignment_range reader).2] at hblocks
  refine ⟨wbuf, hbuild, ?_⟩
  have hcmp := @cmpBytes_compareEnv env reader timeMark hreg
  have hpos : 0 < env.blksize := lt_of_lt_of_le (by decide) hreg.header
  have hpass : forall i st, (env.compareEnv reader timeMark).cmpBytes ∣ i ->
      i < (env.compareEnv reader timeMark).dlen -> st.errorFound = false ->
      exists st', compareBlock (env.compareEnv reader timeMark) wbuf rbuf i st = some st' ∧
        st'.errorFound = false := by
    intro i st hdvd hlt herror
    rw [hcmp] at hdvd
    rcases hdvd with ⟨k, rfl⟩
    rw [mul_comm]
    refine compareBlock_readBack hreg hwrites hwrap hdisk hblocks ?_ herror
    rw [mul_comm] at hlt
    exact Nat.lt_of_mul_lt_mul_right hlt
  rcases @compareLoop_pass wbuf rbuf (env.compareEnv reader timeMark)
    (env.compareEnv reader timeMark).dlen (by rw [hcmp]; exact hpos) hpass
    ((env.compareEnv reader timeMark).dlen + 1) 0 ⟨false, false, 0, 0, none⟩
    (dvd_zero _) (by omega) rfl (by omega) with ⟨st, hloop, herror⟩
  refine ⟨st, ?_⟩
  have hlen : (env.compareEnv reader timeMark).compareLen =
      (env.compareEnv reader timeMark).dlen := rfl
  unfold doCompare
  rw [hlen, zero_add, hloop, Option.map_some, herror]
  rfl

def dataEnv : BufferEnv where
  order := .little
  blksize := 512
  numSubBlks := 0
  devName := Vector.replicate _ 0x61
  hostname := Vector.replicate _ 0x62
  enableStateTable := false
  tblDevName := Vector.replicate _ 0
  tblHostname := Vector.replicate _ 0
  tbl := fun _ => 0

theorem BufferEnv.regular_dataEnv : dataEnv.Regular :=
  ⟨by decide, by decide, rfl, rfl⟩

def linesThread (id : UInt8) (blkno numBlks : Nat) : BufferContext :=
  ⟨Vector.replicate _ id, .p7, 0, 0, blkno, numBlks⟩

theorem doCompare_other_thread_lines :
    exists wbuf rbuf st, ReadBack dataEnv (linesThread 2 11 1) 1000 rbuf ∧
      doCompare (dataEnv.compareEnv (linesThread 2 11 1) 1000) wbuf rbuf 0 = some (-1, st) := by
  rcases @bldBuf_spec dataEnv (linesThread 1 10 2) regular_dataEnv 0
    (fun _ => 1000) (fun _ => 0) with ⟨built, hbuilt, _⟩
  have hwritten : Written dataEnv (getBufAlignment (linesThread 1 10 2))
      (updateHeader dataEnv (getBufAlignment (linesThread 1 10 2)) 7 2000 built)
      (fun _ => 2000) :=
    .refreshed (.built hbuilt)
  have hdisk : ReadBack dataEnv (linesThread 2 11 1) 1000 fun i =>
      updateHeader dataEnv (getBufAlignment (linesThread 1 10 2)) 7 2000 built (512 + i) := by
    intro k hk
    have hzero : k = 0 := lt_one_iff.mp hk
    subst hzero
    refine ⟨linesThread 1 10 2, _, _, 1, rfl, rfl, hwritten, by decide, rfl, by decide,
      by decide, ?_⟩
    intro i _
    rw [zero_mul, zero_add]
    rfl
  rcases doCompare_other_thread regular_dataEnv (by decide) (.inl (by decide))
    hdisk 9 (fun _ => 3000) (fun _ => 0) with ⟨wbuf, _, st, hcmp⟩
  exact ⟨wbuf, _, st, hdisk, hcmp⟩

end Htx.Hxestorage
