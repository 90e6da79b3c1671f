import Htx.Library.Trace
import Htx.Hxestorage.Fencepost
import Htx.Hxestorage.SequentialZone
import Htx.Hxestorage.RuleFile
import Htx.Hxestorage.ValidationLoop

/-!
# Replaying random block numbers

A stanza with `RULE_OPTION = SAVE_SEEDS` stores its seeds, its block range and its fixed
transfer size; a later stanza with `RESTORE_SEEDS` starts from what was stored.
-/

namespace Htx.Hxestorage

open Library BlkContext Trace

structure SeedEnv (Seed : Type) where
  nrand48 : Seed -> Int × Seed
  blksize : Nat
  totalBwrcThreads : Nat

structure SeedWorld where
  fence : Nat -> Int -> BwrcRange
  exiting : Nat -> Bool

inductive RuleOption where
  | default
  | saveSeeds
  | restoreSeeds
  | userSeeds (lbaSeed : Nat)
  deriving DecidableEq

structure SeedThread (Seed : Type) where
  oper : String
  /-- What `populate_operations` has stored for `oper`. -/
  ops : Operations
  option : RuleOption
  minLen : Nat
  maxLen : Nat
  bwrcZoneIndex : Int
  blk : BlkContext
  seed : Seed
  dataSeed : Seed
  /-- How often the thread has looked at the world. -/
  clock : Nat

structure SavedSeeds (Seed : Type) where
  seed : Seed
  dataSeed : Seed
  maxlba : Nat
  minlba : Nat
  dataLen : Nat

abbrev Position :=
  Nat × Nat

namespace SeedThread

variable {Seed : Type} (env : SeedEnv Seed) (world : SeedWorld)

def loops (th : SeedThread Seed) : LoopContext :=
  { th.ops with bwrc := isBwrc th.oper, hotness := 1 }

structure Populated (th : SeedThread Seed) : Prop where
  dlen : th.blk.dlen = th.minLen
  doPartial : th.blk.doPartial = 0

/-!
# Seeds
-/

/-- The end of `set_seed`.  With `SAVE_SEEDS` the range becomes that of a background
thread, if there is one; the seed is saved from before that choice. -/
def saveSeeds (saved : SavedSeeds Seed) (th : SeedThread Seed) :
    SeedThread Seed × SavedSeeds Seed :=
  if th.option = .saveSeeds then
    let chosen :=
      if env.totalBwrcThreads ≠ 0 then
        let draw := env.nrand48 th.seed
        let fence := world.fence th.clock (u64 draw.1 % env.totalBwrcThreads : Nat)
        { th with
          seed := draw.2
          clock := th.clock + 1
          blk := { th.blk with maxBlkno := fence.maxLba, minBlkno := fence.minLba } }
      else th
    (chosen,
      { seed := th.seed
        dataSeed := th.dataSeed
        maxlba := chosen.blk.maxBlkno
        minlba := chosen.blk.minBlkno
        dataLen := if th.blk.increment = 0 then th.blk.dlen else u64 (-1) })
  else (th, saved)

def setSeed (fresh : Seed × Seed) (saved : SavedSeeds Seed) (th : SeedThread Seed) :
    SeedThread Seed × SavedSeeds Seed :=
  match th.option with
  | .restoreSeeds =>
    -- the number that SAVE_SEEDS has used to choose a background thread is skipped
    let seed :=
      if env.totalBwrcThreads ≠ 0 then (env.nrand48 saved.seed).2 else saved.seed
    saveSeeds env world saved
      { th with
        seed := seed
        dataSeed := saved.dataSeed
        blk := { th.blk with maxBlkno := saved.maxlba, minBlkno := saved.minlba } }
  | .userSeeds lbaSeed =>
    saveSeeds env world saved { th with blk := { th.blk with maxBlkno := lbaSeed } }
  | _ => saveSeeds env world saved { th with seed := fresh.1, dataSeed := fresh.2 }

/-!
# Random blocks and lengths
-/

def rand64 (tmp1 tmp2 : Int) : Nat :=
  u64 (tmp1 * 2 ^ 32) + (tmp2 % 2 ^ 32).toNat

def draw64 (seed : Seed) : Nat × Seed :=
  let first := env.nrand48 seed
  let second := env.nrand48 first.2
  (rand64 first.1 second.1, second.2)

def spread (lo hi lbaAlign numBlks randNo : Nat) : Option Nat :=
  let width := u64 (hi - lo - lbaAlign - numBlks + 1)
  if width = 0 then none else some (u64 (lo + randNo % width))

/-- The `while (1)` loop of `random_blkno`, which waits for a background thread that has
written enough and reads the fencepost anew in every test. -/
def waitFencepost : Nat -> SeedThread Seed -> Nat -> Option (SeedThread Seed × Nat × Nat × Nat)
  | 0, _, _ => none
  | fuel + 1, th, numBlks =>
    let draw := draw64 env th.seed
    let index := draw.1 % 2 ^ 32 % env.totalBwrcThreads
    let look k := world.fence (th.clock + k) (index : Nat)
    let room k := u64 ((look k).maxLba - (look k).minLba - th.blk.lbaAlign + 1)
    let th' := { th with seed := draw.2, clock := th.clock + 3 }
    if (look 0).minLba ≠ (look 0).maxLba ∧ numBlks < room 0 then
      some (th', index, draw.1, numBlks)
    else if world.exiting th.clock then
      if room 1 ≤ numBlks then
        let num := u64 ((look 2).maxLba - (look 2).minLba - th.blk.lbaAlign)
        let blk :=
          { th.blk with numBlks := u32 num, dlen := u32 (u32 num * env.blksize) }
        some ({ th' with blk := blk }, index, draw.1, num)
      else some (th', index, draw.1, numBlks)
    else waitFencepost fuel th' numBlks

def moveTo (th : SeedThread Seed) (blkno : Nat) : SeedThread Seed :=
  { th with blk := { th.blk with blkno0 := th.blk.alignUp blkno } }

def randomBlkno (fuel len : Nat) (th : SeedThread Seed) : Option (SeedThread Seed) :=
  let numBlks := len / env.blksize
  if sameWord th.oper "wrc" ∨ env.totalBwrcThreads = 0 ∨ th.option = .restoreSeeds ∨
      th.option = .saveSeeds then
    let draw := draw64 env th.seed
    (spread th.blk.minBlkno th.blk.maxBlkno th.blk.lbaAlign numBlks draw.1).map
      (moveTo { th with seed := draw.2 })
  else
    (waitFencepost env world fuel th numBlks).bind fun (th', index, randNo, num) =>
      let fence := world.fence th'.clock (index : Nat)
      (spread fence.minLba fence.maxLba th'.blk.lbaAlign num randNo).map
        (moveTo { th' with clock := th'.clock + 1 })

def drawLen (minLen maxLen : Nat) (seed : Seed) : Option (Nat × Seed) :=
  let draw := env.nrand48 seed
  let width := u64 (maxLen - minLen + 1)
  if width = 0 then none
  else
    some (u64 (minLen + u64 draw.1 % width / env.blksize * env.blksize : Nat), draw.2)

def setLen (th : SeedThread Seed) (dlen : Nat) : SeedThread Seed :=
  { th with
    blk := { th.blk with dlen := dlen, numBlks := u32 (dlen / env.blksize : Nat) } }

def randomDlen (th : SeedThread Seed) : Option (SeedThread Seed) :=
  if th.blk.increment = -1 then
    (drawLen env th.minLen th.maxLen th.seed).map fun (dlen, seed) =>
      setLen env { th with seed := seed } dlen
  else
    let dlen := u64 (th.blk.dlen + th.blk.increment)
    some (setLen env th
      (if 0 < th.blk.increment ∧ th.maxLen < dlen then th.minLen
      else if th.blk.increment < 0 ∧ dlen < th.minLen then th.maxLen
      else dlen))

def nextLen (th : SeedThread Seed) : Trace Position (SeedThread Seed) :=
  if th.blk.increment ≠ 0 then .ofOption (randomDlen env th) else .done th

/-!
# The SEQ section
-/

section

variable (th : SeedThread Seed)

def initBlkno : SeedThread Seed :=
  { th with blk := th.blk.initBlkno }

def setBlkno : SeedThread Seed :=
  { th with blk := th.blk.setBlkno env.blksize }

def boundaryCheck : SeedThread Seed :=
  { th with blk := th.blk.doBoundaryCheck env.blksize }

def fencepostCheck : SeedThread Seed :=
  if env.totalBwrcThreads ≠ 0 ∧ sameWord th.oper "wrc" = false then
    { th with
      clock := th.clock + 1
      blk := doFencepostCheck (world.fence th.clock th.bwrcZoneIndex) th.blk }
  else th

def seqBodies : SeedThread Seed :=
  let c := th.loops
  let first := fencepostCheck env world (boundaryCheck env th)
  let rounds :=
    Nat.iterate (fun t => fencepostCheck env world (boundaryCheck env (setBlkno env t)))
      (c.opertn - 1) first
  Nat.iterate (fun t => boundaryCheck env (setBlkno env t)) c.nwritesLeft rounds

def seqIteration : Trace Position (SeedThread Seed) :=
  if isBwrc th.oper then .done (setBlkno env (boundaryCheck env th))
  else
    (nextLen env (seqBodies env world th)).andThen fun th' => .done (setBlkno env th')

end

def seqSection (n : Nat) (th : SeedThread Seed) : Trace Position (SeedThread Seed) :=
  if n = 0 then .done th
  else iterate (seqIteration env world) n (initBlkno th)

def EndsShort (n : Nat) (th : SeedThread Seed) : Prop :=
  isBwrc th.oper = false ∧
    exists k th', n = k + 1 ∧
      (iterate (seqIteration env world) k (initBlkno th)).result = some th' ∧
      (seqBodies env world th').blk.doPartial = 1

/-!
# The RANDOM section
-/

variable (fuel : Nat) (saved : SavedSeeds Seed)

def randomLen (th : SeedThread Seed) : Nat :=
  if th.option = .restoreSeeds ∧ th.blk.increment = 0 then saved.dataLen else th.blk.dlen

def randomDraw (th : SeedThread Seed) : Trace Position (SeedThread Seed) :=
  match randomBlkno env world fuel (randomLen saved th) th with
  | none => .stop
  | some th' => .emit (th'.blk.blkno0, th'.blk.dlen) th'

def leftDraw (th : SeedThread Seed) : Trace Position (SeedThread Seed) :=
  (randomDraw env world fuel saved th).andThen fun th' =>
    if th.loops.leftWrite .random = .null then .stop else .done th'

def randomIteration (th : SeedThread Seed) : Trace Position (SeedThread Seed) :=
  let c := th.loops
  ((iterate (randomDraw env world fuel saved) (1 + (c.opertn - 1)) th).andThen
    (iterate (leftDraw env world fuel saved) c.nwritesLeft)).andThen (nextLen env)

/-- What the RANDOM section addresses in `nrandom` iterations after `nseq` iterations
of the SEQ section.  A failed operation or an exit only cuts this list short. -/
def randomPositions (nseq nrandom : Nat) (th : SeedThread Seed) : List Position :=
  ((seqSection env world nseq th).andThen
    (iterate (randomIteration env world fuel saved) nrandom)).output

end SeedThread

/-!
# Moves of the SEQ section
-/

namespace BlkContext

variable (blksize : Nat) (c : BlkContext)

theorem initBlkno_frame : c.initBlkno.toBlkParams = c.toBlkParams ∧ c.initBlkno.dlen = c.dlen ∧
      c.initBlkno.savedDlen = c.savedDlen ∧ c.initBlkno.doPartial = c.doPartial := by
  unfold initBlkno
  cases c.direction with
  | inward =>
    dsimp only
    split_ifs <;> exact ⟨rfl, rfl, rfl, rfl⟩
  | _ => exact ⟨rfl, rfl, rfl, rfl⟩

theorem setBlkno_params : (c.setBlkno blksize).toBlkParams = c.toBlkParams := by
  unfold setBlkno
  by_cases h : c.doPartial = 1
  · rw [if_pos h]
    exact (initBlkno_frame (c.restoreLength blksize)).1
  · rw [if_neg h]
    split
    · rfl
    · rfl
    · split_ifs
      · rfl
      · rfl

theorem partialTransfer_params : (c.partialTransfer blksize).toBlkParams = c.toBlkParams := by
  unfold partialTransfer
  split
  · rfl
  · rfl
  · exact (initBlkno_frame c).1

variable {blksize c} in
theorem doBoundaryCheck_cases {P : BlkContext -> Prop} (hself : P c) (hinit : P c.initBlkno)
    ( hpartial : P (partialTransfer blksize { c with doPartial := 1 }))
    (hrestart : forall p, P { initBlkno { c with doPartial := p } with doPartial := 0 }) :
    P (c.doBoundaryCheck blksize) := by
  unfold doBoundaryCheck
  cases c.direction with
  | up | down =>
    cases c.wrap with
    | none => exact hself
    | some p =>
      dsimp only
      split
      · contradiction
      · exact hpartial
      · exact hrestart _
  | _ =>
    dsimp only
    split_ifs
    · exact hinit
    · exact hself

theorem doBoundaryCheck_params : (c.doBoundaryCheck blksize).toBlkParams = c.toBlkParams :=
  doBoundaryCheck_cases (P := (toBlkParams · = c.toBlkParams)) rfl (initBlkno_frame c).1
    (partialTransfer_params blksize { c with doPartial := 1 }) fun _ => (initBlkno_frame _).1

def HasLength (len : Nat) (c : BlkContext) : Prop :=
  c.doPartial = 0 ∧ c.dlen = len

def KeepsLength (len : Nat) (c : BlkContext) : Prop :=
  c.HasLength len ∨ (c.doPartial = 1 ∧ c.savedDlen = len)

variable {blksize c} {len : Nat}

theorem HasLength.initBlkno (h : c.HasLength len) : c.initBlkno.HasLength len := by
  rcases initBlkno_frame c with ⟨_, hdlen, _, hflag⟩
  exact ⟨hflag.trans h.1, hdlen.trans h.2⟩

theorem KeepsLength.initBlkno (h : c.KeepsLength len) : c.initBlkno.KeepsLength len := by
  rcases initBlkno_frame c with ⟨_, _, hsaved, hflag⟩
  rcases h with h | h
  · exact .inl h.initBlkno
  · exact .inr ⟨hflag.trans h.1, hsaved.trans h.2⟩

theorem partialTransfer_saves (blksize : Nat) (c : BlkContext) :
    (c.partialTransfer blksize).doPartial = c.doPartial ∧
      (c.partialTransfer blksize).savedDlen = c.dlen := by
  unfold partialTransfer
  refine ⟨?_, rfl⟩
  split
  · rfl
  · rfl
  · exact (initBlkno_frame c).2.2.2

theorem HasLength.doBoundaryCheck (h : c.HasLength len) :
    (c.doBoundaryCheck blksize).KeepsLength len := by
  rcases partialTransfer_saves blksize { c with doPartial := 1 } with ⟨hflag, hsaved⟩
  exact doBoundaryCheck_cases (.inl h) (.inl h.initBlkno) (.inr ⟨hflag, hsaved.trans h.2⟩)
    fun _ => .inl ⟨rfl, (initBlkno_frame _).2.1.trans h.2⟩

theorem setBlkno_of_whole (blksize : Nat) (h : c.doPartial = 0) :
    (c.setBlkno blksize).doPartial = 0 ∧ (c.setBlkno blksize).dlen = c.dlen := by
  unfold setBlkno
  rw [if_neg (by rw [h]; decide)]
  split
  · exact ⟨h, rfl⟩
  · exact ⟨h, rfl⟩
  · split_ifs
    · exact ⟨h, rfl⟩
    · exact ⟨h, rfl⟩

theorem KeepsLength.not_short (h : c.KeepsLength len) (hshort : c.doPartial ≠ 1) :
    c.doPartial = 0 := by
  rcases h with h | h
  · exact h.1
  · exact absurd h.1 hshort

theorem KeepsLength.setBlkno_whole {c' : BlkContext} (h : c.KeepsLength len)
    (hflag : c'.doPartial = c.doPartial) : (c'.setBlkno blksize).doPartial = 0 := by
  rcases h with h | h
  · exact (setBlkno_of_whole blksize (hflag.trans h.1)).1
  · unfold setBlkno
    rw [if_pos (hflag.trans h.1)]

theorem KeepsLength.setBlkno (h : c.KeepsLength len) : (c.setBlkno blksize).HasLength len := by
  rcases h with h | ⟨hflag, hsaved⟩
  · rcases setBlkno_of_whole blksize h.1 with ⟨hflag, hdlen⟩
    exact ⟨hflag, hdlen.trans h.2⟩
  · unfold BlkContext.setBlkno
    rw [if_pos hflag]
    exact ⟨rfl, (initBlkno_frame (c.restoreLength blksize)).2.1.trans hsaved⟩

end BlkContext

namespace SeedThread

variable {Seed : Type} {env : SeedEnv Seed} {world : SeedWorld}
variable {a b th : SeedThread Seed} {len : Nat}

structure Framed (a b : SeedThread Seed) : Prop where
  oper : b.oper = a.oper
  ops : b.ops = a.ops
  option : b.option = a.option
  minLen : b.minLen = a.minLen
  maxLen : b.maxLen = a.maxLen
  seed : b.seed = a.seed
  zone : SameZone a.blk b.blk

theorem Framed.of_blk {blk : BlkContext} {clock : Nat} (h : SameZone th.blk blk) :
    Framed th { th with clock := clock, blk := blk } :=
  ⟨rfl, rfl, rfl, rfl, rfl, rfl, h⟩

theorem Framed.trans {c : SeedThread Seed} (h : Framed a b) (h' : Framed b c) : Framed a c :=
  ⟨h'.oper.trans h.oper, h'.ops.trans h.ops, h'.option.trans h.option,
    h'.minLen.trans h.minLen, h'.maxLen.trans h.maxLen, h'.seed.trans h.seed,
    h'.zone.trans h.zone⟩

theorem framed_initBlkno (th : SeedThread Seed) : Framed th (initBlkno th) :=
  .of_blk th.blk.initBlkno_frame.1

theorem framed_setBlkno (th : SeedThread Seed) : Framed th (setBlkno env th) :=
  .of_blk (th.blk.setBlkno_params env.blksize)

theorem framed_boundaryCheck (th : SeedThread Seed) : Framed th (boundaryCheck env th) :=
  .of_blk (th.blk.doBoundaryCheck_params env.blksize)

theorem framed_fencepostCheck (th : SeedThread Seed) : Framed th (fencepostCheck env world th) := by
  unfold fencepostCheck doFencepostCheck
  split_ifs with hcheck hadmits
  · exact .of_blk rfl
  · exact .of_blk th.blk.initBlkno_frame.1
  · exact .of_blk rfl

theorem keepsLength_fencepostCheck (h : th.blk.KeepsLength len) :
    (fencepostCheck env world th).blk.KeepsLength len := by
  unfold fencepostCheck doFencepostCheck
  split_ifs with hcheck hadmits
  · exact h
  · exact h.initBlkno
  · exact h

theorem seqBodies_spec (env : SeedEnv Seed) (world : SeedWorld) (h : th.blk.HasLength len) :
    Framed th (seqBodies env world th) ∧ (seqBodies env world th).blk.KeepsLength len := by
  let kept : SeedThread Seed -> Prop := fun t => Framed th t ∧ t.blk.KeepsLength len
  have hfirst : kept (fencepostCheck env world (boundaryCheck env th)) :=
    ⟨(framed_boundaryCheck th).trans (framed_fencepostCheck _),
      keepsLength_fencepostCheck h.doBoundaryCheck⟩
  have hwrite : forall t, kept t -> kept (boundaryCheck env (setBlkno env t)) := by
    intro t ht
    exact ⟨(ht.1.trans (framed_setBlkno t)).trans (framed_boundaryCheck _),
      ht.2.setBlkno.doBoundaryCheck⟩
  have hround : forall t, kept t ->
      kept (fencepostCheck env world (boundaryCheck env (setBlkno env t))) := by
    intro t ht
    exact ⟨(hwrite t ht).1.trans (framed_fencepostCheck _),
      keepsLength_fencepostCheck (hwrite t ht).2⟩
  have hrounds := Function.Iterate.rec kept hfirst hround (th.loops.opertn - 1)
  exact Function.Iterate.rec kept hrounds hwrite th.loops.nwritesLeft

/-!
# Two threads side by side
-/

variable {saved : SavedSeeds Seed} {oper : String} {increment : Int}

structure Matched (oper : String) (increment : Int) (a b : SeedThread Seed) : Prop where
  saves : a.option = .saveSeeds
  restores : b.option = .restoreSeeds
  oper_left : a.oper = oper
  oper_right : b.oper = oper
  ops : b.ops = a.ops
  seed : b.seed = a.seed
  minBlkno : b.blk.minBlkno = a.blk.minBlkno
  maxBlkno : b.blk.maxBlkno = a.blk.maxBlkno
  lbaAlign : b.blk.lbaAlign = a.blk.lbaAlign
  increment_left : a.blk.increment = increment
  increment_right : b.blk.increment = increment
  size : increment = 0 ∨ (increment = -1 ∧ b.minLen = a.minLen ∧ b.maxLen = a.maxLen)

structure Paired (saved : SavedSeeds Seed) (oper : String) (increment : Int)
    (a b : SeedThread Seed) : Prop extends Matched oper increment a b where
  whole_left : a.blk.doPartial = 0
  whole_right : b.blk.doPartial = 0
  fixed : increment = 0 -> a.blk.dlen = saved.dataLen

structure Agree (saved : SavedSeeds Seed) (oper : String) (increment : Int)
    (a b : SeedThread Seed) : Prop extends Paired saved oper increment a b where
  dlen : increment ≠ 0 -> b.blk.dlen = a.blk.dlen

def SamePosition (increment : Int) (p q : Position) : Prop :=
  p.1 = q.1 ∧ (increment ≠ 0 -> p.2 = q.2)

theorem Matched.framed {a' b' : SeedThread Seed} (h : Matched oper increment a b)
    (ha : Framed a a') (hb : Framed b b') : Matched oper increment a' b' where
  saves := ha.option.trans h.saves
  restores := hb.option.trans h.restores
  oper_left := ha.oper.trans h.oper_left
  oper_right := hb.oper.trans h.oper_right
  ops := hb.ops.trans (h.ops.trans ha.ops.symm)
  seed := hb.seed.trans (h.seed.trans ha.seed.symm)
  minBlkno := by
    have hzone := congrArg BlkParams.minBlkno hb.zone
    have hzone' := congrArg BlkParams.minBlkno ha.zone
    exact hzone.trans (h.minBlkno.trans hzone'.symm)
  maxBlkno := by
    have hzone := congrArg BlkParams.maxBlkno hb.zone
    have hzone' := congrArg BlkParams.maxBlkno ha.zone
    exact hzone.trans (h.maxBlkno.trans hzone'.symm)
  lbaAlign := by
    have hzone := congrArg BlkParams.lbaAlign hb.zone
    have hzone' := congrArg BlkParams.lbaAlign ha.zone
    exact hzone.trans (h.lbaAlign.trans hzone'.symm)
  increment_left := (congrArg BlkParams.increment ha.zone).trans h.increment_left
  increment_right := (congrArg BlkParams.increment hb.zone).trans h.increment_right
  size := by
    rcases h.size with hfixed | ⟨hrandom, hmin, hmax⟩
    · exact .inl hfixed
    · exact .inr ⟨hrandom, hb.minLen.trans (hmin.trans ha.minLen.symm),
        hb.maxLen.trans (hmax.trans ha.maxLen.symm)⟩

structure Lengthened (oper : String) (increment : Int) (a b a' b' : SeedThread Seed) :
    Prop extends Matched oper increment a' b' where
  partial_left : a'.blk.doPartial = a.blk.doPartial
  partial_right : b'.blk.doPartial = b.blk.doPartial
  saved_left : a'.blk.savedDlen = a.blk.savedDlen
  fixed : increment = 0 -> a'.blk.dlen = a.blk.dlen
  dlen : increment ≠ 0 -> b'.blk.dlen = a'.blk.dlen

theorem nextLen_same (h : Matched oper increment a b) :
    Same (SamePosition increment) (Lengthened oper increment a b)
      (nextLen env a) (nextLen env b) := by
  unfold nextLen
  rcases h.size with hfixed | ⟨hrandom, hmin, hmax⟩
  · rw [if_neg (by rw [h.increment_left, hfixed]; decide),
      if_neg (by rw [h.increment_right, hfixed]; decide)]
    exact .done ⟨h, rfl, rfl, rfl, fun _ => rfl, fun hne => absurd hfixed hne⟩
  · have hleft : a.blk.increment = -1 := h.increment_left.trans hrandom
    have hright : b.blk.increment = -1 := h.increment_right.trans hrandom
    rw [if_pos (by rw [hleft]; decide), if_pos (by rw [hright]; decide)]
    unfold randomDlen
    -- both threads draw from the same seed between the same limits
    have hdraw : drawLen env b.minLen b.maxLen b.seed = drawLen env a.minLen a.maxLen a.seed := by
      rw [hmin, hmax, h.seed]
    rw [if_pos hleft, if_pos hright, hdraw]
    cases drawLen env a.minLen a.maxLen a.seed with
    | none => exact .stop
    | some draw =>
      refine .done ⟨⟨h.saves, h.restores, h.oper_left, h.oper_right, h.ops, rfl, h.minBlkno,
        h.maxBlkno, h.lbaAlign, h.increment_left, h.increment_right, h.size⟩,
        rfl, rfl, rfl, fun hzero => ?_, fun _ => rfl⟩
      rw [hrandom] at hzero
      cases hzero

/-!
# The SEQ sections
-/

theorem Paired.seqIteration (env : SeedEnv Seed) (world world' : SeedWorld)
    (hbwrc : isBwrc oper = false) (h : Paired saved oper increment a b) :
    Same (SamePosition increment) (fun a' b' => Paired saved oper increment a' b' ∧
        ((seqBodies env world a).blk.doPartial ≠ 1 -> (seqBodies env world' b).blk.doPartial ≠ 1 ->
            Agree saved oper increment a' b'))
      (seqIteration env world a) (seqIteration env world' b) := by
  rcases seqBodies_spec env world ⟨h.whole_left, rfl⟩ with ⟨hframe, hkeeps⟩
  rcases seqBodies_spec env world' ⟨h.whole_right, rfl⟩ with ⟨hframe', hkeeps'⟩
  have hmatched := h.toMatched.framed hframe hframe'
  unfold SeedThread.seqIteration
  rw [h.oper_left, h.oper_right, hbwrc]
  refine (nextLen_same hmatched).andThen fun x y _ _ hxy => .done ?_
  have hpaired : Paired saved oper increment (setBlkno env x) (setBlkno env y) := by
    refine ⟨hxy.toMatched.framed (framed_setBlkno x) (framed_setBlkno y),
      hkeeps.setBlkno_whole hxy.partial_left, hkeeps'.setBlkno_whole hxy.partial_right,
      fun hfixed => ?_⟩
    have hx : x.blk.KeepsLength a.blk.dlen := by
      rcases hkeeps with ⟨hflag, hdlen⟩ | ⟨hflag, hsaved⟩
      · exact .inl ⟨hxy.partial_left.trans hflag, (hxy.fixed hfixed).trans hdlen⟩
      · exact .inr ⟨hxy.partial_left.trans hflag, hxy.saved_left.trans hsaved⟩
    exact hx.setBlkno.2.trans (h.fixed hfixed)
  refine ⟨hpaired, fun hlong hlong' => ⟨hpaired, fun hrandom => ?_⟩⟩
  have hx := hxy.partial_left.trans (hkeeps.not_short hlong)
  have hy := hxy.partial_right.trans (hkeeps'.not_short hlong')
  calc (y.blk.setBlkno env.blksize).dlen
      = y.blk.dlen := (setBlkno_of_whole env.blksize hy).2
    _ = x.blk.dlen := hxy.dlen hrandom
    _ = (x.blk.setBlkno env.blksize).dlen :=
        (setBlkno_of_whole env.blksize hx).2.symm

theorem Agree.seqIteration (world world' : SeedWorld) (hbwrc : isBwrc oper = true)
    (h : Agree saved oper increment a b) :
    Same (SamePosition increment) (Agree saved oper increment)
      (seqIteration env world a) (seqIteration env world' b) := by
  have hleft : (setBlkno env (boundaryCheck env a)).blk.HasLength a.blk.dlen :=
    BlkContext.KeepsLength.setBlkno (BlkContext.HasLength.doBoundaryCheck ⟨h.whole_left, rfl⟩)
  have hright : (setBlkno env (boundaryCheck env b)).blk.HasLength b.blk.dlen :=
    BlkContext.KeepsLength.setBlkno (BlkContext.HasLength.doBoundaryCheck ⟨h.whole_right, rfl⟩)
  unfold SeedThread.seqIteration
  rw [h.oper_left, h.oper_right, hbwrc]
  refine .done ⟨⟨h.toMatched.framed ?_ ?_, hleft.1, hright.1, fun hfixed => ?_⟩, fun hrandom => ?_⟩
  · exact (framed_boundaryCheck a).trans (framed_setBlkno _)
  · exact (framed_boundaryCheck b).trans (framed_setBlkno _)
  · exact hleft.2.trans (h.fixed hfixed)
  · exact hright.2.trans ((h.dlen hrandom).trans hleft.2.symm)

theorem Agree.initBlkno (h : Agree saved oper increment a b) :
    Agree saved oper increment (initBlkno a) (initBlkno b) := by
  rcases a.blk.initBlkno_frame with ⟨_, hdlen, _, hflag⟩
  rcases b.blk.initBlkno_frame with ⟨_, hdlen', _, hflag'⟩
  exact ⟨⟨h.toMatched.framed (framed_initBlkno a) (framed_initBlkno b),
      hflag.trans h.whole_left, hflag'.trans h.whole_right,
      fun hfixed => hdlen.trans (h.fixed hfixed)⟩,
    fun hrandom => hdlen'.trans ((h.dlen hrandom).trans hdlen.symm)⟩

theorem Agree.of_fixed (h : Paired saved oper increment a b) (hfixed : increment = 0) :
    Agree saved oper increment a b :=
  ⟨h, fun hrandom => absurd hfixed hrandom⟩

theorem Agree.seqSection (world world' : SeedWorld) (n : Nat) (h : Agree saved oper increment a b)
    (hlong : increment ≠ 0 -> ¬ EndsShort env world n a ∧ ¬ EndsShort env world' n b) :
    Same (SamePosition increment) (Agree saved oper increment)
      (seqSection env world n a) (seqSection env world' n b) := by
  unfold SeedThread.seqSection
  cases n with
  | zero => exact .done h
  | succ k =>
    rw [if_neg k.succ_ne_zero, if_neg k.succ_ne_zero]
    cases hbwrc : isBwrc oper with
    | true => exact .iterate (fun _ _ hrel => hrel.seqIteration world world' hbwrc) _ h.initBlkno
    | false =>
      -- only the last iteration decides which length the RANDOM section starts with
      rw [iterate_succ_last, iterate_succ_last]
      have hrounds := Same.iterate (fun x y (hrel : Paired saved oper increment x y) =>
          (hrel.seqIteration env world world' hbwrc).mono fun _ _ _ _ hpost => hpost.1)
        k h.initBlkno.toPaired
      refine hrounds.andThen fun x y hx hy hrel => ?_
      refine (hrel.seqIteration env world world' hbwrc).mono fun x' y' _ _ hpost => ?_
      by_cases hfixed : increment = 0
      · exact .of_fixed hpost.1 hfixed
      · rcases hlong hfixed with ⟨hleft, hright⟩
        refine hpost.2 (fun hshort => hleft ?_) (fun hshort => hright ?_)
        · exact ⟨by rw [h.oper_left, hbwrc], k, x, rfl, hx, hshort⟩
        · exact ⟨by rw [h.oper_right, hbwrc], k, y, rfl, hy, hshort⟩

/-!
# The RANDOM sections
-/

theorem randomBlkno_of_seeded (world : SeedWorld) (fuel : Nat)
    (h : th.option = .restoreSeeds ∨ th.option = .saveSeeds) :
    randomBlkno env world fuel len th =
      (spread th.blk.minBlkno th.blk.maxBlkno th.blk.lbaAlign (len / env.blksize)
        (draw64 env th.seed).1).map (moveTo { th with seed := (draw64 env th.seed).2 }) :=
  if_pos (.inr (.inr h))

section

variable (h : Agree saved oper increment a b)

include h

theorem Agree.randomLen_eq : randomLen saved b = randomLen saved a := by
  have hleft : randomLen saved a = a.blk.dlen := by
    refine if_neg fun hrestores => ?_
    have hoption := h.saves.symm.trans hrestores.1
    cases hoption
  rw [hleft]
  unfold randomLen
  by_cases hfixed : increment = 0
  · rw [if_pos ⟨h.restores, h.increment_right.trans hfixed⟩]
    exact (h.fixed hfixed).symm
  · rw [if_neg fun hrestores => hfixed (h.increment_right.symm.trans hrestores.2)]
    exact h.dlen hfixed

theorem Agree.loops_eq : b.loops = a.loops := by
  unfold loops
  rw [h.ops, h.oper_left, h.oper_right]

theorem Agree.nextLen : Same (SamePosition increment) (Agree saved oper increment)
    (nextLen env a) (nextLen env b) := by
  refine (nextLen_same h.toMatched).mono fun x y _ _ hxy => ?_
  exact ⟨⟨hxy.toMatched, hxy.partial_left.trans h.whole_left, hxy.partial_right.trans h.whole_right,
    fun hfixed => (hxy.fixed hfixed).trans (h.fixed hfixed)⟩, hxy.dlen⟩

variable (env) (world world' : SeedWorld) (fuel fuel' : Nat)

theorem Agree.randomDraw : Same (SamePosition increment) (Agree saved oper increment)
    (randomDraw env world fuel saved a) (randomDraw env world' fuel' saved b) := by
  unfold SeedThread.randomDraw
  rw [randomBlkno_of_seeded world fuel (.inr h.saves),
    randomBlkno_of_seeded world' fuel' (.inl h.restores), h.randomLen_eq, h.seed,
    h.minBlkno, h.maxBlkno, h.lbaAlign]
  cases spread a.blk.minBlkno a.blk.maxBlkno a.blk.lbaAlign
      (randomLen saved a / env.blksize) (draw64 env a.seed).1 with
  | none => exact .stop
  | some blkno =>
    have hblock : b.blk.alignUp blkno = a.blk.alignUp blkno := by
      unfold alignUp
      rw [h.lbaAlign]
    refine .emit ⟨hblock.symm, fun hrandom => (h.dlen hrandom).symm⟩ ?_
    exact ⟨⟨⟨h.saves, h.restores, h.oper_left, h.oper_right, h.ops, rfl, h.minBlkno,
      h.maxBlkno, h.lbaAlign, h.increment_left, h.increment_right, h.size⟩,
      h.whole_left, h.whole_right, h.fixed⟩, h.dlen⟩

theorem Agree.leftDraw : Same (SamePosition increment) (Agree saved oper increment)
    (leftDraw env world fuel saved a) (leftDraw env world' fuel' saved b) := by
  refine (h.randomDraw env world world' fuel fuel').andThen fun x y _ _ hrel => ?_
  rw [h.loops_eq]
  split_ifs with hnull
  · exact .stop
  · exact .done hrel

theorem Agree.randomIteration : Same (SamePosition increment) (Agree saved oper increment)
    (randomIteration env world fuel saved a) (randomIteration env world' fuel' saved b) := by
  unfold SeedThread.randomIteration
  rw [h.loops_eq]
  have hdraws := Same.iterate
    (fun _ _ hrel => hrel.randomDraw env world world' fuel fuel')
    (1 + (a.loops.opertn - 1)) h
  have hbodies := hdraws.andThen fun _ _ _ _ hrel => Same.iterate
    (fun _ _ hrel => hrel.leftDraw env world world' fuel fuel') a.loops.nwritesLeft hrel
  exact hbodies.andThen fun _ _ _ _ hrel => hrel.nextLen

end

/-!
# Saving and restoring
-/

def SameSizes (saver restorer : SeedThread Seed) : Prop :=
  (saver.blk.increment = 0 ∧ restorer.blk.increment = 0) ∨
    (saver.blk.increment = -1 ∧ restorer.blk.increment = -1 ∧
      restorer.minLen = saver.minLen ∧ restorer.maxLen = saver.maxLen)

structure Replays (saver restorer : SeedThread Seed) : Prop where
  saves : saver.option = .saveSeeds
  restores : restorer.option = .restoreSeeds
  saver_populated : saver.Populated
  restorer_populated : restorer.Populated
  oper : restorer.oper = saver.oper
  ops : restorer.ops = saver.ops
  lbaAlign : restorer.blk.lbaAlign = saver.blk.lbaAlign
  sizes : SameSizes saver restorer

variable {saver restorer : SeedThread Seed}

theorem Replays.setSeed_agree (h : Replays saver restorer) (env : SeedEnv Seed)
    (world world' : SeedWorld) (fresh fresh' : Seed × Seed) (old : SavedSeeds Seed) :
    Agree (setSeed env world fresh old saver).2 saver.oper saver.blk.increment
      (setSeed env world fresh old saver).1
      (setSeed env world' fresh' (setSeed env world fresh old saver).2 restorer).1 := by
  have hincrement : restorer.blk.increment = saver.blk.increment := by
    rcases h.sizes with ⟨hleft, hright⟩ | ⟨hleft, hright, _⟩
    · rw [hleft, hright]
    · rw [hleft, hright]
  have hsize : saver.blk.increment = 0 ∨ (saver.blk.increment = -1 ∧
      restorer.minLen = saver.minLen ∧ restorer.maxLen = saver.maxLen) := by
    rcases h.sizes with ⟨hleft, _⟩ | ⟨hleft, _, hrange⟩
    · exact .inl hleft
    · exact .inr ⟨hleft, hrange⟩
  have hdlen : saver.blk.increment ≠ 0 -> restorer.blk.dlen = saver.blk.dlen := by
    intro hrandom
    rcases hsize with hfixed | ⟨_, hmin, _⟩
    · exact absurd hfixed hrandom
    · rw [h.restorer_populated.dlen, h.saver_populated.dlen, hmin]
  unfold setSeed
  simp only [h.saves, h.restores, saveSeeds, if_true, reduceCtorEq, if_false]
  by_cases hbwrc : env.totalBwrcThreads = 0 <;>
    simp only [hbwrc, ne_eq, not_true_eq_false, not_false_eq_true, if_true, if_false] <;>
    exact ⟨⟨⟨rfl, rfl, rfl, h.oper, h.ops, rfl, rfl, rfl, h.lbaAlign, rfl,
      hincrement, hsize⟩, h.saver_populated.doPartial, h.restorer_populated.doPartial,
      fun hfixed => (if_pos hfixed).symm⟩, hdlen⟩

theorem map_fst_eq_of_same {ps qs : List Position}
    (h : List.Forall₂ (SamePosition increment) ps qs) :
    ps.map Prod.fst = qs.map Prod.fst ∧ (increment ≠ 0 -> ps = qs) := by
  induction h with
  | nil => exact ⟨rfl, fun _ => rfl⟩
  | cons hpos _ ih =>
    refine ⟨congrArg₂ List.cons hpos.1 ih.1, fun hrandom => ?_⟩
    exact congrArg₂ List.cons (Prod.ext hpos.1 (hpos.2 hrandom)) (ih.2 hrandom)

/-- A restoring thread addresses the blocks of the saving one, whatever happens to the
fenceposts.  With random sizes the lengths are the same too, unless a SEQ section ends
with a shortened transfer. -/
theorem restoredSeeds_replay (env : SeedEnv Seed) (h : Replays saver restorer)
    (world world' : SeedWorld) (fresh fresh' : Seed × Seed) (old : SavedSeeds Seed)
    (fuel fuel' nseq nrandom : Nat) :
    let saving := setSeed env world fresh old saver
    let restoring := setSeed env world' fresh' saving.2 restorer
    (saver.blk.increment ≠ 0 ->
      ¬ EndsShort env world nseq saving.1 ∧ ¬ EndsShort env world' nseq restoring.1) ->
    let positions := randomPositions env world fuel saving.2 nseq nrandom saving.1
    let positions' := randomPositions env world' fuel' saving.2 nseq nrandom restoring.1
    positions.map Prod.fst = positions'.map Prod.fst ∧
      (saver.blk.increment ≠ 0 -> positions = positions') := by
  intro saving restoring hlong
  have hagree := h.setSeed_agree env world world' fresh fresh' old
  have hsame := (hagree.seqSection world world' nseq hlong).andThen
    fun _ _ _ _ hrel => Same.iterate
      (fun _ _ hrel => hrel.randomIteration env world world' fuel fuel') nrandom hrel
  exact map_fst_eq_of_same hsame.output

def libraryEnv : SeedEnv Nat where
  nrand48 x :=
    let next := (x * 25214903917 + 11) % 2 ^ 48
    ((next / 2 ^ 17 : Nat), next)
  blksize := 512
  totalBwrcThreads := 0

def stillWorld : SeedWorld :=
  ⟨fun _ _ => ⟨0, 0, .up⟩, fun _ => false⟩

def randomWriter (option : RuleOption) (firstBlk : Nat) : SeedThread Nat where
  oper := "W"
  ops := populateOperations "W"
  option := option
  minLen := 1024
  maxLen := 4096
  bwrcZoneIndex := -1
  blk :=
    { direction := .up, startingBlock := .at firstBlk, minBlkno := 0, maxBlkno := 9,
      increment := -1, blkHop := 0, lbaAlign := 0, numWrites := 1, firstBlk := firstBlk,
      numBlks := 2, dlen := 1024, savedDlen := 0, blkno0 := 0, blkno1 := 0, blkno2 := 0,
      doPartial := 0 }
  seed := 0
  dataSeed := 0
  clock := 0

theorem replays_randomWriter (firstBlk firstBlk' : Nat) :
    Replays (randomWriter .saveSeeds firstBlk) (randomWriter .restoreSeeds firstBlk') :=
  ⟨rfl, rfl, ⟨rfl, rfl⟩, ⟨rfl, rfl⟩, rfl, rfl, rfl, .inr ⟨rfl, rfl, rfl, rfl⟩⟩

def savingWriter (firstBlk : Nat) : SeedThread Nat × SavedSeeds Nat :=
  setSeed libraryEnv stillWorld (1, 0) ⟨0, 0, 0, 0, 0⟩ (randomWriter .saveSeeds firstBlk)

def restoringWriter (firstBlk firstBlk' : Nat) : SeedThread Nat :=
  (setSeed libraryEnv stillWorld (5, 0) (savingWriter firstBlk).2
    (randomWriter .restoreSeeds firstBlk')).1

theorem restoredSeeds_replay_randomWriter :
    Replays (randomWriter .saveSeeds 9) (randomWriter .restoreSeeds 0) ∧
      randomPositions libraryEnv stillWorld 0 (savingWriter 9).2 0 3 (savingWriter 9).1 =
        randomPositions libraryEnv stillWorld 0 (savingWriter 9).2 0 3
          (restoringWriter 9 0) := by
  have hreplays := replays_randomWriter 9 0
  refine ⟨hreplays, ?_⟩
  have hnever : forall th, ¬ EndsShort libraryEnv stillWorld 0 th := by
    intro th hshort
    rcases hshort with ⟨_, k, _, hk, _⟩
    exact Nat.succ_ne_zero k hk.symm
  exact (restoredSeeds_replay libraryEnv hreplays stillWorld stillWorld (1, 0) (5, 0)
    ⟨0, 0, 0, 0, 0⟩ 0 0 0 3 fun _ => ⟨hnever _, hnever _⟩).2 (by decide)

/-- With one SEQ operation they do: the one at the last block is shortened, and the
length drawn after it is replaced by the saved one. -/
theorem restoredSeeds_diverge : Replays (randomWriter .saveSeeds 9) (randomWriter .restoreSeeds 0) ∧
      randomPositions libraryEnv stillWorld 0 (savingWriter 9).2 1 3 (savingWriter 9).1 =
        [(4, 1024), (0, 3072), (2, 2048)] ∧
      randomPositions libraryEnv stillWorld 0 (savingWriter 9).2 1 3 (restoringWriter 9 0) =
        [(2, 2560), (0, 3072), (2, 2048)] :=
  ⟨replays_randomWriter 9 0, by decide +kernel, by decide +kernel⟩

end SeedThread

end Htx.Hxestorage
