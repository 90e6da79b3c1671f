import Htx.Hxestorage.PatternLoops
import Htx.Library.EventSystem
import Htx.Library.StoreLoop

/-!
# The loop over the blocks

What `bld_buf` copies for the blocks of a built-in pattern, and what carries over from one
buffer to the next.
-/

namespace Htx.Hxestorage.Fill

open List Option Library

/-!
# Headers
-/

section

variable (env : BufferEnv) (tctx : BufferContext) (writeStamp : UInt16)

section

variable (lba : Nat) (curTime : UInt32)

def headerFields : List UInt8 :=
  env.order.encode lbaLen lba ++ env.order.encode timeStampLen curTime.toNat ++
    (if env.enableStateTable then env.tblDevName else env.devName).toList ++ tctx.id.toList ++
    (if env.enableStateTable then env.tblHostname else env.hostname).toList ++
    env.order.encode writeStampLen
      (if env.enableStateTable then bldHeaderStamp env.tbl tctx.numWritesRemaining lba
        else writeStamp.toNat) ++
    reservedBytes ++ bufsig

def headerChecksum : Nat :=
  let fields := headerFields env tctx writeStamp lba curTime
  let cksum := wordSum env.order (fun i => fields.getD i 0) 0 (overhead - 1)
  ((-(cksum % 2 ^ 16 : Nat) : Int) % 2 ^ 16).toNat

def headerBytes : List UInt8 :=
  headerFields env tctx writeStamp lba curTime ++
    env.order.encode 2 (headerChecksum env tctx writeStamp lba curTime)

theorem length_headerFields :
    (headerFields env tctx writeStamp lba curTime).length = checksumPos := by
  unfold headerFields
  simp only [length_append, ByteOrder.length_encode, Vector.length_toList]
  rfl

theorem length_headerBytes : (headerBytes env tctx writeStamp lba curTime).length = headerSize := by
  rw [headerBytes, length_append, length_headerFields, ByteOrder.length_encode]
  rfl

end

def headersOf (clock : Nat -> UInt32) : Headers := fun k lba =>
  ⟨(headerBytes env tctx writeStamp lba (clock k)).toArray,
    length_headerBytes env tctx writeStamp lba (clock k)⟩

theorem bldHeader_fields (lba : Nat) (curTime : UInt32) (m : Memory) (a : Nat) :
    bldHeader env tctx writeStamp lba curTime m a =
      updateChecksum env.order (m.put a (headerFields env tctx writeStamp lba curTime)) a := by
  unfold bldHeader headerFields
  simp only [Memory.put_append, length_append, ByteOrder.length_encode,
    Vector.length_toList, Memory.store]
  rfl

theorem bldHeader_bytes (lba : Nat) (curTime : UInt32) (m : Memory) (a : Nat) :
    bldHeader env tctx writeStamp lba curTime m a =
      m.put a (headerBytes env tctx writeStamp lba curTime) := by
  have hlen := length_headerFields env tctx writeStamp lba curTime
  have hsum : wordSum env.order (m.put a (headerFields env tctx writeStamp lba curTime)) a
        (overhead - 1) =
      wordSum env.order (fun i => (headerFields env tctx writeStamp lba curTime).getD i 0) 0
        (overhead - 1) := by
    apply wordSum_congr
    intro i hi
    have hi : i < checksumPos := hi
    simp only [Memory.put]
    rw [if_pos (by omega), Nat.add_sub_cancel_left, Nat.zero_add]
  rw [bldHeader_fields, headerBytes, Memory.put_append, hlen]
  unfold updateChecksum
  rw [hsum]
  rfl

theorem bldHeader_eq_put (lba : Nat) (clock : Nat -> UInt32) (k : Nat) (m : Memory) (a : Nat) :
    bldHeader env tctx writeStamp lba (clock k) m a =
      m.put a (headersOf env tctx writeStamp clock k lba).toList :=
  bldHeader_bytes env tctx writeStamp lba (clock k) m a

end

/-!
# Blocks
-/

section

variable (env : FillEnv) (ctx : FillContext) (headers : Headers)

inductive BlocksFrom (algorithm : Algorithm) :
    Nat -> Nat -> PatternState -> List (List UInt8) -> Prop where
  | nil (k lba : Nat) (s : PatternState) : BlocksFrom algorithm k lba s []
  | cons {k lba fuel : Nat} {s s' : PatternState} {payload : List UInt8}
      {rest : List (List UInt8)}
      (block : pattern env ctx algorithm fuel lba s = some (payload, s'))
      (others : BlocksFrom algorithm (k + 1) (lba + 1) s' rest) :
      BlocksFrom algorithm k lba s (((headers k lba).toList ++ payload) :: rest)

end

/-!
# One block
-/

variable {r : List Copy × Int × PatternState}

section

variable {env : FillEnv} {ctx : FillContext} {headers : Headers} {algorithm : Algorithm}
  {k lba fuel : Nat} {a : Int} {s : PatternState}

theorem sectorLoop_unique (hsub : 1 ≤ env.numSubBlksPsect) {i : Nat} {j : Int} (hj : j ≤ 1) :
    sectorLoop env ctx headers algorithm k lba fuel i j a s = none := by
  induction fuel generalizing i j a with
  | zero => rfl
  | succ fuel ih =>
    rw [sectorLoop, if_pos (by omega)]
    dsimp only
    rw [if_pos (by omega), ih (by omega)]
    rfl

theorem sectorLoop_negative (hsub : env.numSubBlksPsect < 0)
    (h : sectorLoop env ctx headers algorithm k lba fuel 1 0 a s = some r) : r = ([], a, s) := by
  cases fuel with
  | zero => cases h
  | succ fuel =>
    rw [sectorLoop, if_neg (by omega)] at h
    exact (Option.some.inj h).symm

theorem sectorLoop_zero (hsub : env.numSubBlksPsect = 0) {payload : List UInt8} {s' : PatternState}
    (h : pattern env ctx algorithm (fuel + 1) lba s = some (payload, s')) :
    sectorLoop env ctx headers algorithm k lba (fuel + 2) 1 0 a s =
      some ([⟨a, (headers k lba).toList⟩, ⟨a + headerSize, payload⟩],
        a + headerSize + advance env.blksize, s') := by
  rw [sectorLoop, if_pos (by omega)]
  rw [if_neg (by omega), h]
  dsimp only
  rw [sectorLoop, if_neg (by omega)]
  rfl

theorem sectorLoop_some (hsub : env.numSubBlksPsect = 0)
    (h : sectorLoop env ctx headers algorithm k lba fuel 1 0 a s = some r) :
    exists fuel payload s', pattern env ctx algorithm fuel lba s = some (payload, s') ∧
      r = ([⟨a, (headers k lba).toList⟩, ⟨a + headerSize, payload⟩],
        a + headerSize + advance env.blksize, s') := by
  cases fuel with
  | zero => cases h
  | succ fuel =>
    rw [sectorLoop, if_pos (by omega)] at h
    rw [if_neg (by omega)] at h
    cases hpattern : pattern env ctx algorithm fuel lba s with
    | none =>
      rw [hpattern] at h
      cases h
    | some p =>
      obtain ⟨payload, s'⟩ := p
      rw [hpattern] at h
      dsimp only at h
      refine ⟨fuel, payload, s', hpattern, ?_⟩
      cases fuel with
      | zero => cases h
      | succ fuel =>
        rw [sectorLoop, if_neg (by omega)] at h
        exact (Option.some.inj h).symm

end

theorem advance_eq {blksize : Nat} (hlow : headerSize ≤ blksize) (heven : blksize % 2 = 0)
    (hint : blksize < 2 ^ 31 + headerSize) : advance blksize = (blksize - headerSize : Nat) := by
  unfold advance
  rw [bufsize_eq hlow hint]
  unfold headerSize
  omega

/-!
# All blocks
-/

variable {n : Nat}

section

variable {env : FillEnv} {ctx : FillContext} {headers : Headers} {algorithm : Algorithm}
  {k lba fuel : Nat} {a : Int} {s : PatternState}

open Copy

theorem builtinLoop_fits (hsub : env.numSubBlksPsect = 0) (hsized : Sized env ctx)
    (hends : algorithm.Ends env.blksize ctx.lineLength)
    (hlength : algorithm.payloadLength env.blksize ctx.lineLength ctx.dlen =
      env.blksize - headerSize)
    (hfuel : env.blksize < fuel) (n : Nat)
    (hadjacent : n ≤ 1 ∨ advance env.blksize = (env.blksize - headerSize : Nat))
    (hvalid : s.Valid ctx.lineLength) :
    exists copies s' blocks,
      builtinLoop env ctx headers algorithm (fuel + 1) n k lba a s = some (copies, s') ∧
      (forall m, applyAll copies m = (mk a blocks.flatten).apply m) ∧
      blocks.length = n ∧ (forall b, b ∈ blocks -> b.length = env.blksize) ∧
      BlocksFrom env ctx headers algorithm k lba s blocks := by
  induction n generalizing k lba a s with
  | zero =>
    refine ⟨[], s, [], rfl, fun m => ?_, rfl, fun b hb => ?_, .nil k lba s⟩
    · exact applyAll_consecutive a [] m
    · cases hb
  | succ n ih =>
    obtain ⟨fuel, rfl⟩ := Nat.exists_eq_add_one.mpr (Nat.zero_lt_of_lt hfuel)
    obtain ⟨payload, s₁, hpattern, hvalid₁⟩ : exists payload s₁,
        pattern env ctx algorithm (fuel + 1) lba s = some (payload, s₁) ∧
          s₁.Valid ctx.lineLength := pattern_eq hsized hvalid hends hfuel
    have hpayload := (pattern_some hsized hvalid hpattern).2
    obtain ⟨copies, s₂, blocks, hloop, hcopies, hlen, hsizes, hblocks⟩ :=
      @ih (k + 1) (lba + 1) (a + headerSize + advance env.blksize) s₁ (by omega) hvalid₁
    have hheader : ((headers k lba).toList ++ payload).length = env.blksize := by
      rw [length_append, Vector.length_toList, hpayload, hlength]
      have := hsized.low
      omega
    refine ⟨[⟨a, (headers k lba).toList⟩, ⟨a + headerSize, payload⟩] ++ copies, s₂,
      ((headers k lba).toList ++ payload) :: blocks, ?_, fun m => ?_, ?_, ?_,
      .cons hpattern hblocks⟩
    · rw [builtinLoop, sectorLoop_zero hsub hpattern]
      dsimp only
      rw [hloop]
      rfl
    · rw [applyAll_append, hcopies, flatten_cons, apply_append,
        apply_append, Vector.length_toList]
      rcases hadjacent with hone | hadvance
      · have hnil : blocks = [] := length_eq_zero_iff.mp (by omega)
        rw [hnil, flatten_nil, apply_nil, apply_nil]
        rfl
      · have hnext : a + headerSize + advance env.blksize =
            a + ((headers k lba).toList ++ payload).length := by
          rw [hheader, hadvance]
          have := hsized.low
          omega
        rw [hnext]
        rfl
    · rw [length_cons, hlen]
    · intro b hb
      rcases mem_cons.mp hb with rfl | hb
      · exact hheader
      · exact hsizes b hb

theorem builtinLoop_unique (hsub : 1 ≤ env.numSubBlksPsect) (n : Nat) :
    builtinLoop env ctx headers algorithm fuel (n + 1) k lba a s = none := by
  rw [builtinLoop, sectorLoop_unique hsub (by decide)]

variable {r : List Copy × PatternState}

theorem builtinLoop_negative (hsub : env.numSubBlksPsect < 0)
    (h : builtinLoop env ctx headers algorithm fuel n k lba a s = some r) : r.1 = [] := by
  induction n generalizing k lba a s r with
  | zero =>
    cases h
    rfl
  | succ n ih =>
    rw [builtinLoop] at h
    cases hsector : sectorLoop env ctx headers algorithm k lba fuel 1 0 a s with
    | none =>
      rw [hsector] at h
      cases h
    | some q =>
      rw [hsector, sectorLoop_negative hsub hsector] at h
      obtain ⟨r', hr', rfl⟩ := map_eq_some_iff.mp h
      rw [ih hr']
      rfl

theorem builtinLoop_succ (hsub : env.numSubBlksPsect = 0)
    (h : builtinLoop env ctx headers algorithm fuel (n + 1) k lba a s = some r) :
    exists fuel' payload s₁ r', pattern env ctx algorithm fuel' lba s = some (payload, s₁) ∧
      builtinLoop env ctx headers algorithm fuel n (k + 1) (lba + 1)
        (a + headerSize + advance env.blksize) s₁ = some r' ∧
      r.1 = ⟨a, (headers k lba).toList⟩ :: ⟨a + headerSize, payload⟩ :: r'.1 := by
  rw [builtinLoop] at h
  cases hsector : sectorLoop env ctx headers algorithm k lba fuel 1 0 a s with
  | none =>
    rw [hsector] at h
    cases h
  | some q =>
    obtain ⟨fuel', payload, s₁, hpattern, rfl⟩ := sectorLoop_some hsub hsector
    rw [hsector] at h
    obtain ⟨r', hr', rfl⟩ := map_eq_some_iff.mp h
    exact ⟨fuel', payload, s₁, r', hpattern, hr', rfl⟩

theorem covers_header {i : Int} :
    (mk a (headers k lba).toList).Covers i <-> a ≤ i ∧ i < a + headerSize := by
  unfold Copy.Covers
  rw [Vector.length_toList]

theorem builtinLoop_second (hsub : env.numSubBlksPsect = 0)
    (h : builtinLoop env ctx headers algorithm fuel (n + 2) k lba a s = some r) :
    Copy.Covered r.1 (a + headerSize + advance env.blksize) := by
  obtain ⟨_, _, s₁, r₁, _, hloop, hr⟩ := builtinLoop_succ hsub h
  obtain ⟨_, _, _, r₂, _, _, hr₁⟩ := builtinLoop_succ hsub hloop
  rw [hr, hr₁]
  refine ⟨_, mem_cons_of_mem _ (mem_cons_of_mem _ mem_cons_self), ?_⟩
  rw [covers_header]
  unfold headerSize
  omega

theorem builtinLoop_covered_lt (hsub : env.numSubBlksPsect = 0)
    (hpayload : forall {fuel lba s payload s'},
      pattern env ctx algorithm fuel lba s = some (payload, s') ->
        headerSize + payload.length ≤ env.blksize)
    (hadvance : headerSize + advance env.blksize = (env.blksize : Int) - 1)
    (h : builtinLoop env ctx headers algorithm fuel n k lba a s = some r) {i : Int}
    (hi : Copy.Covered r.1 i) : i < a + n * ((env.blksize : Int) - 1) + 1 := by
  induction n generalizing k lba a s r with
  | zero =>
    cases h
    obtain ⟨w, hw, _⟩ := hi
    cases hw
  | succ n ih =>
    obtain ⟨fuel', payload, s₁, r', hpattern, hloop, hr⟩ := builtinLoop_succ hsub h
    have hfits := hpayload hpattern
    have hstride : (0 : Int) ≤ n * ((env.blksize : Int) - 1) := by
      apply mul_nonneg (Int.natCast_nonneg n)
      unfold headerSize at hfits
      omega
    have hsucc : (((n + 1 : Nat) : Int) * ((env.blksize : Int) - 1)) =
        n * ((env.blksize : Int) - 1) + ((env.blksize : Int) - 1) := by
      push_cast
      ring
    rw [hr, covered_cons, covered_cons, covers_header] at hi
    rw [hsucc]
    rcases hi with hi | hi | hi
    · omega
    · unfold Copy.Covers at hi
      dsimp only at hi
      omega
    · have := ih hloop hi
      omega

end

/-!
# What carries over to the next buffer
-/

section

variable {env : FillEnv} {ctx : FillContext} {headers : Headers} {algorithm : Algorithm}
  {k lba fuel : Nat} {a : Int} {s s' : PatternState} {payload : List UInt8}

theorem generatePattern8_valid {order : ByteOrder} {lineLength : Nat} {size : Int}
    (hvalid : s.Valid lineLength)
    (h : generatePattern8 order lineLength size s = some (payload, s')) :
    s'.Valid lineLength := by
  unfold generatePattern8 at h
  split at h
  · cases h
  · next hline =>
      split at h
      · cases h
        exact hvalid
      · next height =>
          obtain ⟨dwords, s₁, hlines, -, hvalid₁⟩ :=
            lines8_valid hvalid (by omega) (u32 size / lineLength) 0
          rw [hlines] at h
          dsimp only at h
          split at h
          · cases h
            exact hvalid₁
          · have hlt := Nat.mod_lt (u32 size) (pos_of_ne_zero hline)
            unfold left8 at h
            split at h
            · cases h
            · next hne =>
                cases h
                exact hvalid₁.moveOne (by omega) (by omega)

theorem generateRandom_valid {buffer : List UInt8} {bufferSize lineLength : Nat} {size : Int}
    (hvalid : s.Valid lineLength)
    (h : generateRandom buffer bufferSize lineLength size s = some (payload, s')) :
    s'.Valid lineLength := by
  unfold generateRandom at h
  dsimp only at h
  repeat' split at h
  all_goals
    cases h
    try exact ⟨hvalid.begin_lt, hvalid.trailing⟩

section

variable (hvalid : s.Valid ctx.lineLength)

include hvalid

theorem pattern_valid
    (h : pattern env ctx algorithm fuel lba s = some (payload, s')) :
    s'.Valid ctx.lineLength := by
  have hmap : forall {α : Type} {o : Option α} {f : α -> List UInt8},
      (o.map fun x => (f x, s)) = some (payload, s') -> s'.Valid ctx.lineLength := by
    intro α o f hsome
    obtain ⟨x, -, heq⟩ := map_eq_some_iff.mp hsome
    cases heq
    exact hvalid
  cases algorithm with
  | p3 | p4 | p5 | p7 => exact hmap h
  | p8 => exact generatePattern8_valid hvalid h
  | p9 | pA => exact generateRandom_valid hvalid h
  | other c =>
    cases h
    exact hvalid

theorem sectorLoop_valid {i : Nat} {j : Int}
    (h : sectorLoop env ctx headers algorithm k lba fuel i j a s = some r) :
    r.2.2.Valid ctx.lineLength := by
  induction fuel generalizing i j a s r with
  | zero => cases h
  | succ fuel ih =>
    rw [sectorLoop] at h
    split at h
    · split at h
      · obtain ⟨r', hr', rfl⟩ := map_eq_some_iff.mp h
        have hnext := ih hvalid hr'
        exact hnext
      · split at h
        · cases h
        · next payload s₁ hpattern =>
            obtain ⟨r', hr', rfl⟩ := map_eq_some_iff.mp h
            have hnext := ih (pattern_valid hvalid hpattern) hr'
            exact hnext
    · cases h
      exact hvalid

theorem builtinLoop_valid {r : List Copy × PatternState}
    (h : builtinLoop env ctx headers algorithm fuel n k lba a s = some r) :
    r.2.Valid ctx.lineLength := by
  induction n generalizing k lba a s r with
  | zero =>
    cases h
    exact hvalid
  | succ n ih =>
    rw [builtinLoop] at h
    split at h
    · cases h
    · next copies a' s₁ hsector =>
        obtain ⟨r', hr', rfl⟩ := map_eq_some_iff.mp h
        have hnext := ih (sectorLoop_valid hvalid hsector) hr'
        exact hnext

end

theorem bldBuf_valid (hvalid : ctx.state.Valid ctx.lineLength) {r : List Copy × PatternState}
    (h : bldBuf env ctx headers fuel = some r) : r.2.Valid ctx.lineLength := by
  unfold bldBuf at h
  split at h
  · exact builtinLoop_valid hvalid h
  · obtain ⟨blocks, -, rfl⟩ := map_eq_some_iff.mp h
    exact hvalid
  · split at h
    · cases h
      exact hvalid
    · cases h

theorem apply_eq_put {m : Int -> UInt8} {mem : Memory} (h : forall i : Nat, m i = mem i) (a : Nat)
    (bytes : List UInt8) (i : Nat) : (Copy.mk a bytes).apply m i = mem.put a bytes i := by
  unfold Copy.apply Memory.put
  dsimp only
  by_cases hcovers : a ≤ i ∧ i < a + bytes.length
  · have hoffset : ((i : Int) - a).toNat = i - a := by omega
    rw [if_pos (by omega), if_pos hcovers, hoffset, getElem?_eq_getElem (by omega),
      getD_eq_getElem _ _ (by omega)]
    rfl
  · rw [if_neg hcovers]
    split
    · rw [getElem?_eq_none (by omega), Option.getD_none, h]
    · exact h i

/-- The copies of `bld_buf` leave the buffer that a comparing thread builds. -/
theorem bldBlocks_eq (hsub : env.numSubBlksPsect = 0) (hsized : Sized env ctx)
    {benv : BufferEnv} {tctx : BufferContext} {writeStamp : UInt16} {clock : Nat -> UInt32}
    (horder : benv.order = env.order) (hblksize : benv.blksize = env.blksize)
    (halign : tctx.align = ctx.lineLength) {a : Nat} {r : List Copy × PatternState}
    {m : Int -> UInt8} {mem : Memory} (hmem : forall i : Nat, m i = mem i)
    (hvalid : s.Valid ctx.lineLength)
    (h : builtinLoop env ctx (headersOf benv tctx writeStamp clock) (algorithmOf tctx.pattern)
      fuel n k lba a s = some r) :
    exists mem', bldBlocks benv tctx writeStamp (fun j => clock (k + j)) lba n a mem = some mem' ∧
      forall i : Nat, Copy.applyAll r.1 m i = mem' i := by
  induction n generalizing k lba a s m mem r with
  | zero =>
    cases h
    exact ⟨mem, rfl, hmem⟩
  | succ n ih =>
    obtain ⟨_, payload, s₁, r', hpattern, hr, hcopies⟩ := builtinLoop_succ hsub h
    have hint : env.blksize < 2 ^ 31 + headerSize := by
      have hends := (pattern_some hsized hvalid hpattern).1
      cases hkind : tctx.pattern with
      | p3 | p5 =>
        rw [hkind] at hends
        exact hends.1
      | p4 | p7 =>
        rw [hkind] at hends
        exact hends
    have hnext : (a : Int) + headerSize + advance env.blksize =
        (a + headerSize + (benv.blksize - headerSize) / 2 * 2 : Nat) := by
      unfold advance
      rw [bufsize_eq hsized.low hint, hblksize]
      push_cast
      omega
    rw [hnext] at hr
    have hheader := apply_eq_put hmem a (headersOf benv tctx writeStamp clock k lba).toList
    obtain ⟨mem', hok, hrest⟩ := ih (apply_eq_put hheader (a + headerSize) payload)
      (pattern_valid hvalid hpattern) hr
    refine ⟨mem', ?_, fun i => ?_⟩
    · have hclock : (fun j => clock (k + 1 + j)) = fun j => clock (k + (j + 1)) :=
        funext fun j => by rw [Nat.add_assoc, Nat.add_comm 1]
      rw [hclock] at hok
      rw [bldBlocks, patternBytes_eq hsized hvalid horder hblksize halign hpattern]
      dsimp only
      rw [bldHeader_bytes]
      exact hok
    · rw [hcopies]
      exact hrest i

/-- One call of `bld_buf` after the other, for transfers of any blocks. -/
def buildSystem (env : FillEnv) (ctx : FillContext) :
    EventSystem PatternState (Nat × Nat × Nat × Headers × Nat) where
  Initial s := s = .initial ctx.lineLength
  step := fun s (blkno, numBlks, dlen, headers, fuel) =>
    (bldBuf env { ctx with blkno, numBlks, dlen, state := s } headers fuel).map Prod.snd

/-- The double words of a line from which pattern 8 goes on stay in the line, over any number of
buffers. -/
theorem patternState_valid (env : FillEnv) (ctx : FillContext)
    (transfers : List (Nat × Nat × Nat × Headers × Nat)) :
    (buildSystem env ctx).Along (PatternState.Valid ctx.lineLength) (.initial ctx.lineLength)
      transfers := by
  refine EventSystem.Reachable.along (fun s hs => ?_) (.init rfl) transfers
  induction hs with
  | init hs => exact hs ▸ PatternState.valid_initial
  | step _ _ hst ih =>
    obtain ⟨r, hr, rfl⟩ := map_eq_some_iff.mp hst
    have hnext := fun hvalid => bldBuf_valid hvalid hr
    exact hnext ih

end

end Htx.Hxestorage.Fill
