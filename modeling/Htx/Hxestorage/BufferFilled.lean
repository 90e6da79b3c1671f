import Htx.Hxestorage.ExplicitPattern
import Htx.Hxestorage.BlockLoops

/-!
# Filled buffers

`bld_buf` should end and leave in the write buffer exactly the blocks of the transfer.  It does
so under conditions on the block size, the pattern and the alignment, which are exact.
-/

namespace Htx.Hxestorage.Fill

open List Option ExplicitPattern Nat Library

section

variable (env : FillEnv) (ctx : FillContext) (headers : Headers)

def Filled : Prop :=
  exists fuel copies s, bldBuf env ctx headers fuel = some (copies, s) ∧
    exists blocks : List (List UInt8), Copy.Fills copies blocks.flatten ∧
      blocks.length = ctx.numBlks ∧ (forall b, b ∈ blocks -> b.length = env.blksize) ∧
      forall algorithm, ctx.kind = .builtin algorithm ->
        BlocksFrom env ctx headers algorithm 0 ctx.blkno ctx.state blocks

/-- A thread that is ready for `bld_buf`: the alignment has gone through `get_buf_alignment` and
the pattern through `fill_pattern_details`, and the transfer is `num_blks` blocks long. -/
structure Prepared (uniquePattern : Bool) (align : Int) : Prop where
  blksize_pos : 0 < env.blksize
  blksize_lt : env.blksize < 2 ^ 32
  subBlks : env.numSubBlksPsect = numSubBlksPsect uniquePattern env.blksize
  line : ctx.lineLength = lineLength align
  dlen : ctx.dlen = ctx.numBlks * env.blksize
  buffer : exists maxLen, exists b : PatternBuffer maxLen env.blksize,
    ctx.dlen ≤ maxLen ∧ ctx.patternBuffer = b.bytes ∧ ctx.patternSize = b.bytes.length % 2 ^ 32
  builtin : forall c, ctx.kind ≠ .builtin (.other c)
  explicit : forall p, ctx.kind = .explicit p ->
    exists text, fillExplicit ('0' :: 'x' :: text) = .ok p
  state : ctx.state.Valid ctx.lineLength

def Algorithm.FillsBlock (blksize lineLength : Nat) : Algorithm -> Prop
  | p3 | p5 => blksize < 2 ^ 31 + headerSize ∧ blksize % 4 = 0
  | p4 => blksize < 2 ^ 31 + headerSize ∧ blksize % 2 = 0
  | p7 => blksize < 2 ^ 31 + headerSize
  | p8 => blksize = headerSize ∨ (lineLength % 8 = 0 ∧ blksize % 8 = 0)
  | p9 | pA =>
    blksize = headerSize ∨
      (lineLength % 8 = 0 ∧ blksize % 8 = 0 ∧ blksize < lineLength + headerSize)
  | other _ => False

def Adjacent (blksize numBlks : Nat) : Prop :=
  numBlks = 1 ∨ (blksize % 2 = 0 ∧ blksize < 2 ^ 31 + headerSize)

def Fillable (uniquePattern : Bool) : Prop :=
  ctx.numBlks = 0 ∨
    match ctx.kind with
    | .builtin algorithm =>
      (uniquePattern = true -> 128 ≤ env.blksize ∧ env.blksize < 256) ∧
        headerSize ≤ env.blksize ∧ algorithm.FillsBlock env.blksize ctx.lineLength ∧
        Adjacent env.blksize ctx.numBlks
    | .explicit p => 2 ≤ p.patternSize ∧ p.patternSize ∣ env.blksize
    | .library => True

end

theorem Algorithm.fillsBlock_iff {algorithm : Algorithm} (hother : forall c, algorithm ≠ .other c)
    {blksize lineLength : Nat} (hlow : headerSize ≤ blksize) (hline : 0 < lineLength)
    (dlen : Nat) :
    algorithm.FillsBlock blksize lineLength <-> algorithm.Ends blksize lineLength ∧
      algorithm.payloadLength blksize lineLength dlen = blksize - headerSize := by
  unfold FillsBlock Ends payloadLength headerSize at *
  have hmod : lineLength % 8 = 0 -> (blksize - 64) % lineLength % 8 = (blksize - 64) % 8 :=
    fun h => mod_mod_of_dvd _ (dvd_of_mod_eq_zero h)
  cases algorithm with
  | p3 | p4 | p5 | p7 =>
    dsimp only
    omega
  | p8 =>
    by_cases height : lineLength % 8 = 0
    · have := hmod height
      simp only [height, if_true, true_and, forall_const]
      omega
    · simp only [height, if_false, false_and, or_false, false_imp_iff, true_and]
      omega
  | p9 | pA =>
    by_cases height : lineLength % 8 = 0
    · simp only [height, if_true, true_and, forall_const]
      omega
    · simp only [height, if_false, false_and, or_false, false_imp_iff, true_and]
      omega
  | other c => exact absurd rfl (hother c)

/-!
# Explicit patterns and library patterns
-/

theorem length_groupLoop (patternId : List Char) {len n j : Nat} (h : len ≤ j + n) :
    (len - j) / 4 ≤ (groupLoop patternId len n j).length := by
  induction n generalizing j with
  | zero =>
    have : len - j = 0 := by omega
    rw [this]
    exact zero_le _
  | succ n ih =>
    rw [groupLoop]
    split
    · have := ih (j := j + 4) (by omega)
      rw [length_cons]
      omega
    · have : len - j = 0 := by omega
      rw [this]
      exact zero_le _

variable {p : ExplicitPattern}

theorem fillExplicit_ok {text : List Char} (h : fillExplicit ('0' :: 'x' :: text) = .ok p) :
    p.round.length = p.patternSize / 2 ∧ (2 ≤ p.patternSize -> p.patternSize % 2 = 0) := by
  have hlen : ('0' :: 'x' :: text).length - 2 = text.length := rfl
  have hpower : forall len, len < 33 -> len &&& (len - 1) = 0 -> 4 ≤ len -> len % 4 = 0 := by
    decide
  unfold fillExplicit at h
  rw [hlen] at h
  dsimp only at h
  split at h
  · cases h
  · split at h
    · cases h
    · next hmax =>
        split at h
        · cases h
        · next hpow =>
            cases h
            have hwords : (text.length - 0) / 4 ≤
                (groupLoop ('0' :: 'x' :: text) text.length text.length 0).length :=
              length_groupLoop _ (by omega)
            unfold maxPatternLength at hmax
            constructor
            · rw [ExplicitPattern.round, length_take]
              dsimp only
              omega
            · intro htwo
              have := hpower text.length (by omega) (not_not.mp hpow)
              dsimp only at htwo ⊢
              omega

theorem repeatLoop_nil (hround : p.round = []) {fuel : Nat} {j : Int} {ws : List Nat}
    (h : repeatLoop p fuel j = some ws) : ws = [] := by
  induction fuel generalizing j ws with
  | zero => cases h
  | succ fuel ih =>
    rw [repeatLoop] at h
    split at h
    · cases h
      rfl
    · obtain ⟨rest, hrest, rfl⟩ := map_eq_some_iff.mp h
      rw [ih hrest, append_nil]
      exact hround

theorem explicitLoop_nil {env : FillEnv} (hround : p.round = []) {fuel n : Nat}
    {bss : List (List UInt8)} (h : explicitLoop env p fuel n = some bss) :
    bss.flatten = [] := by
  induction n generalizing bss with
  | zero =>
    cases h
    rfl
  | succ n ih =>
    rw [explicitLoop] at h
    split at h
    · cases h
    · next ws hws =>
        obtain ⟨rest, hrest, rfl⟩ := map_eq_some_iff.mp h
        rw [flatten_cons, ih hrest, repeatLoop_nil hround hws]
        rfl

theorem length_flatten_of_forall {blocks : List (List UInt8)} {c : Nat}
    (h : forall b, b ∈ blocks -> b.length = c) : blocks.flatten.length = blocks.length * c := by
  rw [length_flatten, map_congr_left h, map_const', sum_replicate, smul_eq_mul]

theorem exists_blocks (c n : Nat) (bytes : List UInt8) (h : n * c ≤ bytes.length) :
    exists blocks : List (List UInt8), blocks.flatten = bytes.take (n * c) ∧
      blocks.length = n ∧ forall b, b ∈ blocks -> b.length = c := by
  induction n generalizing bytes with
  | zero => exact ⟨[], by simp, rfl, fun b hb => by cases hb⟩
  | succ n ih =>
    have hle : c ≤ bytes.length := by
      rw [succ_mul] at h
      omega
    obtain ⟨blocks, hflatten, hlen, hsizes⟩ := ih (bytes.drop c) (by
      rw [length_drop]
      rw [succ_mul] at h
      omega)
    refine ⟨bytes.take c :: blocks, ?_, by rw [length_cons, hlen], ?_⟩
    · rw [flatten_cons, hflatten, succ_mul, add_comm, take_add]
    · intro b hb
      rcases mem_cons.mp hb with rfl | hb
      · rw [length_take, min_eq_left hle]
      · exact hsizes b hb

/-!
# The exact condition
-/

section

variable {env : FillEnv} {ctx : FillContext} {headers : Headers} {uniquePattern : Bool}
  {align : Int}

theorem lineLength_pos (align : Int) : 0 < lineLength align := by
  unfold lineLength
  split <;> omega

section

variable (h : Prepared env ctx uniquePattern align)

include h

theorem Prepared.sized (hlow : headerSize ≤ env.blksize) : Sized env ctx := by
  obtain ⟨maxLen, b, hdlen, hbytes, hsize⟩ := h.buffer
  have hlen := b.length_eq
  exact {
    low := hlow
    high := h.blksize_lt
    line := h.line ▸ lineLength_pos align
    buffer := by
      rw [hbytes]
      omega
    patternSize := by
      rw [hbytes, hsize]
      exact mod_le _ _ }

theorem covered_zero {copies : List Copy}
    {blocks : List (List UInt8)} (hfills : Copy.Fills copies blocks.flatten)
    (hlen : blocks.length = ctx.numBlks)
    (hsizes : forall b, b ∈ blocks -> b.length = env.blksize) (hpos : ctx.numBlks ≠ 0) :
    Copy.Covered copies 0 := by
  rw [hfills.covered_iff]
  have hprod := mul_pos (pos_of_ne_zero hpos) h.blksize_pos
  unfold Copy.Covers
  dsimp only
  rw [length_flatten_of_forall hsizes, hlen]
  omega

theorem subBlks_eq_zero_iff : env.numSubBlksPsect = 0 <->
      (uniquePattern = true -> 128 ≤ env.blksize ∧ env.blksize < 256) := by
  rw [h.subBlks]
  unfold numSubBlksPsect
  cases uniquePattern with
  | false => simp
  | true =>
    simp only [if_true, forall_const]
    omega

end

variable {algorithm : Algorithm}

section

variable (h : Prepared env ctx uniquePattern align)

include h

section

variable (hkind : ctx.kind = .builtin algorithm)

include hkind

theorem not_filled_of_subBlks (hpos : ctx.numBlks ≠ 0)
    (hsub : env.numSubBlksPsect ≠ 0) : ¬ Filled env ctx headers := by
  rintro ⟨fuel, copies, s, hbld, blocks, hfills, hlen, hsizes, -⟩
  unfold bldBuf at hbld
  simp only [hkind] at hbld
  rcases lt_or_gt_of_ne hsub with hneg | hone
  · have hnil : copies = [] := builtinLoop_negative hneg hbld
    obtain ⟨w, hw, _⟩ := covered_zero h hfills hlen hsizes hpos
    rw [hnil] at hw
    cases hw
  · obtain ⟨n, hn⟩ := exists_eq_succ_of_ne_zero hpos
    rw [hn, builtinLoop_unique hone] at hbld
    cases hbld

theorem Filled.adjacent (hpos : ctx.numBlks ≠ 0)
    (hsub : env.numSubBlksPsect = 0) (hlow : headerSize ≤ env.blksize)
    (hblock : algorithm.FillsBlock env.blksize ctx.lineLength) (hfilled : Filled env ctx headers) :
    Adjacent env.blksize ctx.numBlks := by
  obtain ⟨fuel, copies, s, hbld, blocks, hfills, hlen, hsizes, -⟩ := hfilled
  have hlt := h.blksize_lt
  unfold bldBuf at hbld
  simp only [hkind] at hbld
  by_contra hnot
  unfold Adjacent at hnot
  push Not at hnot
  obtain ⟨n, hn⟩ : exists n, ctx.numBlks = n + 2 := ⟨ctx.numBlks - 2, by omega⟩
  by_cases hint : env.blksize < 2 ^ 31 + headerSize
  · -- an odd block size, which only pattern 7 fills
    have hseven : algorithm = .p7 := by
      unfold Algorithm.FillsBlock headerSize at hblock
      cases algorithm <;> grind
    subst hseven
    have hpayload : forall {fuel lba s payload s'},
        pattern env ctx .p7 fuel lba s = some (payload, s') ->
          headerSize + payload.length ≤ env.blksize := by
      intro fuel lba s payload s' hpattern
      obtain ⟨bytes, hbytes, heq⟩ := map_eq_some_iff.mp hpattern
      cases heq
      obtain ⟨k, hk, rfl⟩ := generatePattern7_some hbytes
      rw [bufsize_eq hlow hint] at hk
      rw [length_lines]
      omega
    have hadvance : headerSize + advance env.blksize = (env.blksize : Int) - 1 := by
      unfold advance
      rw [bufsize_eq hlow hint]
      unfold headerSize at *
      omega
    have hdata : blocks.flatten.length = ctx.numBlks * env.blksize := by
      rw [length_flatten_of_forall hsizes, hlen]
    have hlimit : (0 : Int) + ctx.numBlks * ((env.blksize : Int) - 1) + 1 <
        (blocks.flatten.length : Int) := by
      rw [hdata, cast_mul, mul_sub, mul_one]
      omega
    have hnonneg : (0 : Int) ≤ 0 + ctx.numBlks * ((env.blksize : Int) - 1) + 1 := by
      have := h.blksize_pos
      have hprod : (0 : Int) ≤ ctx.numBlks * ((env.blksize : Int) - 1) :=
        mul_nonneg (Int.natCast_nonneg _) (by omega)
      omega
    exact Copy.not_fills_of_covered_lt hlimit hnonneg
      (fun i hi => builtinLoop_covered_lt hsub hpayload hadvance hbld hi) hfills
  · -- the second block would start before the buffer
    rw [hn] at hbld
    have hsecond := (hfills.covered_iff).mp (builtinLoop_second hsub hbld)
    unfold Copy.Covers advance at hsecond
    dsimp only at hsecond
    rw [bufsize_of_large (by omega) hlt] at hsecond
    unfold headerSize at *
    omega

theorem Filled.builtin (hpos : ctx.numBlks ≠ 0)
    (hfilled : Filled env ctx headers) :
    env.numSubBlksPsect = 0 ∧ headerSize ≤ env.blksize ∧
      algorithm.FillsBlock env.blksize ctx.lineLength ∧ Adjacent env.blksize ctx.numBlks := by
  have hsub : env.numSubBlksPsect = 0 := by
    by_contra hsub
    exact not_filled_of_subBlks h hkind hpos hsub hfilled
  have hother : forall c, algorithm ≠ .other c := by
    rintro c rfl
    exact h.builtin c hkind
  obtain ⟨-, -, -, -, blocks, -, hlen, hsizes, hblocks⟩ := id hfilled
  cases hblocks algorithm hkind with
  | nil => exact absurd hlen.symm hpos
  | cons hpattern _ =>
    have hblock := hsizes _ mem_cons_self
    rw [length_append, Vector.length_toList] at hblock
    have hlow : headerSize ≤ env.blksize := by omega
    have hsome := pattern_some (h.sized hlow) h.state hpattern
    have hfits : algorithm.FillsBlock env.blksize ctx.lineLength :=
      (Algorithm.fillsBlock_iff hother hlow (h.sized hlow).line ctx.dlen).mpr
        ⟨hsome.1, by omega⟩
    exact ⟨hsub, hlow, hfits, Filled.adjacent h hkind hpos hsub hlow hfits hfilled⟩

theorem filled_builtin (hsub : env.numSubBlksPsect = 0)
    (hlow : headerSize ≤ env.blksize) (hfits : algorithm.FillsBlock env.blksize ctx.lineLength)
    (hadjacent : Adjacent env.blksize ctx.numBlks) : Filled env ctx headers := by
  have hother : forall c, algorithm ≠ .other c := by
    rintro c rfl
    exact h.builtin c hkind
  have hsized := h.sized hlow
  obtain ⟨hends, hlength⟩ :=
    (Algorithm.fillsBlock_iff hother hlow hsized.line ctx.dlen).mp hfits
  have hstep : ctx.numBlks ≤ 1 ∨ advance env.blksize = (env.blksize - headerSize : Nat) := by
    rcases hadjacent with hone | ⟨heven, hint⟩
    · exact .inl hone.le
    · exact .inr (advance_eq hlow heven hint)
  obtain ⟨copies, s', blocks, hloop, hcopies, hlen, hsizes, hblocks⟩ :=
    @builtinLoop_fits env ctx headers algorithm 0 ctx.blkno (env.blksize + 1) 0 ctx.state hsub
      hsized hends hlength (lt_succ_self _) ctx.numBlks hstep h.state
  refine ⟨env.blksize + 2, copies, s', ?_, blocks, hcopies, hlen, hsizes, ?_⟩
  · unfold bldBuf
    simp only [hkind]
    exact hloop
  · intro algorithm' hkind'
    rw [hkind] at hkind'
    cases hkind'
    exact hblocks

end

end

theorem filled_explicit {p : ExplicitPattern} (hkind : ctx.kind = .explicit p)
    (hround : p.round.length = p.patternSize / 2) (heven : p.patternSize % 2 = 0)
    (hsize : p.patternSize ≠ 0) (hdvd : p.patternSize ∣ env.blksize) :
    Filled env ctx headers := by
  refine ⟨env.blksize + 1, _, ctx.state, ?_, List.replicate ctx.numBlks (p.block env),
    Copy.fills_consecutive _, length_replicate, ?_, ?_⟩
  · unfold bldBuf
    simp only [hkind]
    rw [explicitLoop_eq hsize hdvd (lt_succ_self _)]
    rfl
  · intro b hb
    rw [eq_of_mem_replicate hb]
    exact length_block hround heven hsize hdvd
  · intro algorithm hbuiltin
    rw [hkind] at hbuiltin
    cases hbuiltin

section

variable (h : Prepared env ctx uniquePattern align)

include h

theorem Filled.explicit {p : ExplicitPattern}
    (hkind : ctx.kind = .explicit p) (hpos : ctx.numBlks ≠ 0) (hfilled : Filled env ctx headers) :
    2 ≤ p.patternSize ∧ p.patternSize ∣ env.blksize := by
  obtain ⟨fuel, copies, s, hbld, blocks, hfills, hlen, hsizes, -⟩ := hfilled
  obtain ⟨text, htext⟩ := h.explicit p hkind
  obtain ⟨n, hn⟩ := exists_eq_succ_of_ne_zero hpos
  unfold bldBuf at hbld
  simp only [hkind] at hbld
  have hdvd : p.patternSize ∣ env.blksize := by
    by_contra hnot
    rw [hn, explicitLoop_of_not_dvd hnot] at hbld
    cases hbld
  refine ⟨?_, hdvd⟩
  by_contra hsmall
  -- a pattern of less than a word writes nothing
  have hround : p.round = [] := by
    apply length_eq_zero_iff.mp
    rw [(fillExplicit_ok htext).1]
    omega
  obtain ⟨bss, hbss, heq⟩ := map_eq_some_iff.mp hbld
  cases heq
  have hcovered := covered_zero h hfills hlen hsizes hpos
  rw [(Copy.fills_consecutive bss).covered_iff, explicitLoop_nil hround hbss] at hcovered
  exact absurd hcovered.2 (lt_irrefl 0)

theorem filled_library (hkind : ctx.kind = .library) : Filled env ctx headers := by
  obtain ⟨maxLen, b, hdlen, hbytes, -⟩ := h.buffer
  have hle : ctx.dlen ≤ ctx.patternBuffer.length := by
    rw [hbytes, b.length_eq]
    omega
  obtain ⟨blocks, hflatten, hlen, hsizes⟩ :=
    exists_blocks env.blksize ctx.numBlks ctx.patternBuffer (h.dlen ▸ hle)
  refine ⟨0, [⟨0, ctx.patternBuffer.take ctx.dlen⟩], ctx.state, ?_, blocks, ?_, hlen, hsizes, ?_⟩
  · unfold bldBuf
    simp only [hkind]
    rw [if_pos hle]
  · rw [hflatten, ← h.dlen]
    exact fun m => rfl
  · intro algorithm hbuiltin
    rw [hkind] at hbuiltin
    cases hbuiltin

theorem filled_of_no_blocks (hzero : ctx.numBlks = 0) : Filled env ctx headers := by
  cases hkind : ctx.kind with
  | builtin algorithm | explicit p =>
    refine ⟨0, [], ctx.state, ?_, [], Copy.fills_consecutive [], hzero.symm, ?_, ?_⟩
    · unfold bldBuf
      simp only [hkind, hzero]
      rfl
    · intro b hb
      cases hb
    · intro algorithm _
      exact BlocksFrom.nil 0 ctx.blkno ctx.state
  | library => exact filled_library h hkind

end

/-- `bld_buf` ends and fills exactly the transfer if and only if the conditions on the block
size, the pattern and the alignment hold. -/
theorem filled_iff (h : Prepared env ctx uniquePattern align) (headers : Headers) :
    Filled env ctx headers <-> Fillable env ctx uniquePattern := by
  unfold Fillable
  by_cases hpos : ctx.numBlks = 0
  · exact ⟨fun _ => .inl hpos, fun _ => filled_of_no_blocks h hpos⟩
  · rw [or_iff_right hpos]
    cases hkind : ctx.kind with
    | builtin algorithm =>
      rw [← subBlks_eq_zero_iff h]
      constructor
      · exact Filled.builtin h hkind hpos
      · rintro ⟨hsub, hlow, hfits, hadjacent⟩
        exact filled_builtin h hkind hsub hlow hfits hadjacent
    | explicit p =>
      dsimp only
      constructor
      · exact Filled.explicit h hkind hpos
      · rintro ⟨htwo, hdvd⟩
        obtain ⟨text, htext⟩ := h.explicit p hkind
        obtain ⟨hround, heven⟩ := fillExplicit_ok htext
        exact filled_explicit hkind hround (heven htwo) (by omega) hdvd
    | library => exact ⟨fun _ => trivial, fun _ => filled_library h hkind⟩

end

def env512 (uniquePattern : Bool) : FillEnv where
  order := .big
  blksize := 512
  numSubBlksPsect := numSubBlksPsect uniquePattern 512
  diskname := Vector.replicate 8 0

def twoBlocks : FillContext where
  kind := .builtin .p3
  blkno := 7
  numBlks := 2
  dlen := 1024
  lineLength := lineLength 512
  patternBuffer := List.replicate (1024 + 512 + 128) 0
  patternSize := 1024 + 512 + 128
  state := PatternState.initial (lineLength 512)

theorem prepared_twoBlocks (uniquePattern : Bool) :
    Prepared (env512 uniquePattern) twoBlocks uniquePattern 512 where
  blksize_pos := zero_lt_succ 511
  blksize_lt := by
    show 512 < 2 ^ 32
    decide
  subBlks := rfl
  line := rfl
  dlen := rfl
  buffer := by
    have hlen : (List.replicate (1024 + 512 + 128) (0 : UInt8)).length = 1024 + 512 + 128 :=
      length_replicate
    refine ⟨1024, ⟨List.replicate (1024 + 512 + 128) 0, hlen⟩, le_refl 1024, rfl, ?_⟩
    show 1024 + 512 + 128 = (List.replicate (1024 + 512 + 128) (0 : UInt8)).length % 2 ^ 32
    rw [hlen, mod_eq_of_lt (by decide)]
  builtin := by
    intro c h
    cases h
  explicit := by
    intro p h
    cases h
  state := PatternState.valid_initial

theorem unique_pattern_never_ends : ¬ exists headers fuel,
      bldBuf (env512 true) twoBlocks headers fuel ≠ none := by
  rintro ⟨headers, fuel, hends⟩
  have hsub : 1 ≤ (env512 true).numSubBlksPsect := by decide
  exact hends (builtinLoop_unique hsub 1)

theorem filled_iff_twoBlocks : (forall headers, Filled (env512 false) twoBlocks headers) ∧
      forall headers, ¬ Filled (env512 true) twoBlocks headers := by
  constructor
  · intro headers
    apply (filled_iff (prepared_twoBlocks false) headers).mpr
    right
    show (false = true -> 128 ≤ 512 ∧ 512 < 256) ∧ headerSize ≤ 512 ∧
      (512 < 2 ^ 31 + headerSize ∧ 512 % 4 = 0) ∧
      (2 = 1 ∨ (512 % 2 = 0 ∧ 512 < 2 ^ 31 + headerSize))
    decide
  · intro headers hfilled
    have hfillable := (filled_iff (prepared_twoBlocks true) headers).mp hfilled
    have hsmall : twoBlocks.numBlks = 0 ∨
        ((true = true -> 128 ≤ 512 ∧ 512 < 256) ∧ headerSize ≤ 512 ∧
          (512 < 2 ^ 31 + headerSize ∧ 512 % 4 = 0) ∧
          (2 = 1 ∨ (512 % 2 = 0 ∧ 512 < 2 ^ 31 + headerSize))) := hfillable
    exact absurd hsmall (by decide)

end Htx.Hxestorage.Fill
