import Htx.Hxestorage.TransferLength

/-!
# Random blocks

`random_blkno` draws a block from the range of the thread, or from what a background
thread has written.
-/

namespace Htx.Hxestorage

open SeedThread Nat SeedEnv Option BwrcRange

structure Lands (lo hi lbaAlign numBlks blkno : Nat) : Prop where
  aligned : lbaAlign ≠ 0 -> lbaAlign ∣ blkno
  low : lo ≤ blkno
  high : blkno + numBlks ≤ hi + 1

/-!
# Drawing from one range
-/

section

variable {lo hi numBlks randNo : Nat} {c : BlkContext}

theorem alignUp_shift {blk : Nat} (hblk : blk < 2 ^ 64) :
    exists d, (d = 0 ∨ d < c.lbaAlign) ∧ c.alignUp blk = u64 (blk + d : Nat) ∧
      (c.lbaAlign ≠ 0 -> c.lbaAlign ∣ blk + d) := by
  unfold BlkContext.alignUp
  by_cases h : c.lbaAlign ≠ 0 ∧ blk % c.lbaAlign ≠ 0
  · have hmod := mod_lt blk (pos_of_ne_zero h.1)
    refine ⟨c.lbaAlign - blk % c.lbaAlign, .inr (by omega), ?_, fun _ => ?_⟩
    · rw [if_pos h]
      congr 1
      have hcast : ((blk % c.lbaAlign : Nat) : Int) = (blk : Int) % c.lbaAlign :=
        Int.natCast_mod _ _
      omega
    · have hdiv := div_add_mod blk c.lbaAlign
      refine ⟨blk / c.lbaAlign + 1, ?_⟩
      rw [mul_add, mul_one]
      omega
  · refine ⟨0, .inl rfl, ?_, fun halign => ?_⟩
    · rw [if_neg h]
      exact (u64_eq rfl hblk).symm
    · rw [not_and, not_not] at h
      exact dvd_of_mod_eq_zero (h halign)

theorem alignUp_congr {c' : BlkContext} (h : c'.lbaAlign = c.lbaAlign) (blk : Nat) :
    c'.alignUp blk = c.alignUp blk := by
  unfold BlkContext.alignUp
  rw [h]

theorem spread_lands (hhi : hi < 2 ^ 64) (hpos : 0 < numBlks)
    (hroom : lo + c.lbaAlign + numBlks ≤ hi) (randNo : Nat) :
    exists blk, spread lo hi c.lbaAlign numBlks randNo = some blk ∧
      Lands lo hi c.lbaAlign numBlks (c.alignUp blk) := by
  have hwidth : u64 ((hi : Int) - lo - c.lbaAlign - numBlks + 1) =
      hi - lo - c.lbaAlign - numBlks + 1 := u64_eq (by omega) (by omega)
  have hmod := mod_lt randNo (show 0 < hi - lo - c.lbaAlign - numBlks + 1 from succ_pos _)
  have hblk : u64 ((lo + randNo % (hi - lo - c.lbaAlign - numBlks + 1) : Nat) : Int) =
      lo + randNo % (hi - lo - c.lbaAlign - numBlks + 1) := u64_eq rfl (by omega)
  refine ⟨lo + randNo % (hi - lo - c.lbaAlign - numBlks + 1), ?_, ?_⟩
  · unfold spread
    rw [hwidth, if_neg (succ_ne_zero _)]
    exact congrArg some hblk
  · rcases @alignUp_shift c (lo + randNo % (hi - lo - c.lbaAlign - numBlks + 1)) (by omega) with
      ⟨d, hd, halign, hdvd⟩
    have heq : c.alignUp (lo + randNo % (hi - lo - c.lbaAlign - numBlks + 1)) =
        lo + randNo % (hi - lo - c.lbaAlign - numBlks + 1) + d := by
      rw [halign]
      exact u64_eq rfl (by omega)
    rw [heq]
    exact ⟨hdvd, by omega, by omega⟩

theorem spread_misses (hlo : lo < 2 ^ 64) (hhi : hi < 2 ^ 64) (halign : c.lbaAlign < 2 ^ 31)
    (hroom : ¬ lo + c.lbaAlign + numBlks ≤ hi) (hlow : 2 ^ 31 ≤ randNo) (hhigh : randNo < 2 ^ 63) :
    ¬ exists blk, spread lo hi c.lbaAlign numBlks randNo = some blk ∧
      Lands lo hi c.lbaAlign numBlks (c.alignUp blk) := by
  rintro ⟨blk, hspread, hlands⟩
  have hfirst := hlands.low
  have hlast := hlands.high
  unfold spread at hspread
  dsimp only at hspread
  split at hspread
  · cases hspread
  · next hwidth =>
      cases hspread
      -- the transfer alone fits, so the difference is just below zero
      rcases @alignUp_shift c (u64 ((lo : Int) +
        randNo % u64 ((hi : Int) - lo - c.lbaAlign - numBlks + 1))) (u64_lt _) with ⟨d, hd, heq, _⟩
      rw [heq] at hfirst hlast
      have hmod : (randNo : Int) % u64 ((hi : Int) - lo - c.lbaAlign - numBlks + 1) = randNo := by
        refine Int.emod_eq_of_lt (Int.natCast_nonneg _) ?_
        unfold u64 at hwidth hfirst hlast ⊢
        omega
      rw [hmod] at hfirst hlast
      unfold u64 at hfirst hlast
      omega

end

/-!
# Waiting for a background thread
-/

def SeedWorld.still (fence : Int -> BwrcRange) (exiting : Bool) : SeedWorld where
  fence := fun _ => fence
  exiting := fun _ => exiting

namespace BwrcRange

def room (f : BwrcRange) (lbaAlign : Nat) : Nat :=
  u64 ((f.maxLba : Int) - f.minLba - lbaAlign + 1)

def Ready (f : BwrcRange) (lbaAlign numBlks : Nat) : Prop :=
  f.minLba ≠ f.maxLba ∧ numBlks < f.room lbaAlign

instance (f : BwrcRange) (lbaAlign numBlks : Nat) : Decidable (f.Ready lbaAlign numBlks) :=
  inferInstanceAs (Decidable (_ ∧ _))

def granted (f : BwrcRange) (lbaAlign numBlks : Nat) : Nat :=
  if f.Ready lbaAlign numBlks ∨ ¬ f.room lbaAlign ≤ numBlks then numBlks
  else u64 ((f.maxLba : Int) - f.minLba - lbaAlign)

end BwrcRange

namespace SeedThread

section

variable {Seed : Type} {env : SeedEnv Seed} {fence : Int -> BwrcRange} {exiting : Bool}
  {th : SeedThread Seed} {numBlks : Nat}

theorem waitFencepost_succ (fuel : Nat) {index : Nat}
    (hindex : (draw64 env th.seed).1 % 2 ^ 32 % env.totalBwrcThreads = index) :
    waitFencepost env (.still fence exiting) (fuel + 1) th numBlks =
      if (fence index).Ready th.blk.lbaAlign numBlks then
        some ({ th with seed := (draw64 env th.seed).2, clock := th.clock + 3 }, index,
          (draw64 env th.seed).1, numBlks)
      else if exiting then
        if (fence index).room th.blk.lbaAlign ≤ numBlks then
          some ({ th with
            seed := (draw64 env th.seed).2
            clock := th.clock + 3
            blk := { th.blk with
              numBlks := u32 (u64 (((fence index).maxLba : Int) - (fence index).minLba -
                th.blk.lbaAlign))
              dlen := u32 (u32 (u64 (((fence index).maxLba : Int) - (fence index).minLba -
                th.blk.lbaAlign)) * env.blksize) } }, index,
            (draw64 env th.seed).1,
            u64 (((fence index).maxLba : Int) - (fence index).minLba - th.blk.lbaAlign))
        else some ({ th with seed := (draw64 env th.seed).2, clock := th.clock + 3 }, index,
          (draw64 env th.seed).1, numBlks)
      else waitFencepost env (.still fence exiting) fuel
        { th with seed := (draw64 env th.seed).2, clock := th.clock + 3 } numBlks := by
  subst hindex
  rfl

theorem waitFencepost_spec (htotal : env.totalBwrcThreads ≠ 0) {fuel : Nat}
    {th' : SeedThread Seed} {index randNo num : Nat}
    (h : waitFencepost env (.still fence exiting) fuel th numBlks =
      some (th', index, randNo, num)) :
    index < env.totalBwrcThreads ∧ th'.blk.lbaAlign = th.blk.lbaAlign ∧
      ((fence index).Ready th.blk.lbaAlign numBlks ∨ exiting = true) ∧
      num = (fence index).granted th.blk.lbaAlign numBlks := by
  induction fuel generalizing th with
  | zero => cases h
  | succ fuel ih =>
    have hlt := mod_lt ((draw64 env th.seed).1 % 2 ^ 32) (pos_of_ne_zero htotal)
    rw [waitFencepost_succ fuel rfl] at h
    split at h
    · next hready =>
        cases h
        exact ⟨hlt, rfl, .inl hready, (if_pos (.inl hready)).symm⟩
    · next hready =>
        split at h
        · next hexit =>
            split at h
            · next hroom =>
                cases h
                refine ⟨hlt, rfl, .inr hexit, (if_neg ?_).symm⟩
                rintro (h | h)
                · exact hready h
                · exact h hroom
            · next hroom =>
                cases h
                exact ⟨hlt, rfl, .inr hexit, (if_pos (.inr hroom)).symm⟩
        · have hlater := ih h
          exact hlater

theorem waitFencepost_stops {index : Nat}
    (hindex : (draw64 env th.seed).1 % 2 ^ 32 % env.totalBwrcThreads = index)
    (hstop : (fence index).Ready th.blk.lbaAlign numBlks ∨ exiting = true) :
    exists th', waitFencepost env (.still fence exiting) 1 th numBlks =
        some (th', index, (draw64 env th.seed).1, (fence index).granted th.blk.lbaAlign numBlks) ∧
      th'.blk.lbaAlign = th.blk.lbaAlign := by
  rw [waitFencepost_succ 0 hindex]
  unfold granted
  by_cases hready : (fence index).Ready th.blk.lbaAlign numBlks
  · rw [if_pos hready, if_pos (.inl hready)]
    exact ⟨_, rfl, rfl⟩
  · rw [if_neg hready, if_pos (hstop.resolve_left hready)]
    by_cases hroom : (fence index).room th.blk.lbaAlign ≤ numBlks
    · rw [if_pos hroom, if_neg (by rintro (h | h); exacts [hready h, h hroom])]
      exact ⟨_, rfl, rfl⟩
    · rw [if_neg hroom, if_pos (.inr hroom)]
      exact ⟨_, rfl, rfl⟩

end

end SeedThread

/-!
# All draws
-/

def DrawsOwn (total : Nat) (option : RuleOption) (oper : String) : Prop :=
  sameWord oper "wrc" ∨ total = 0 ∨ option = .restoreSeeds ∨ option = .saveSeeds

structure RandomBlkLands {Seed : Type} (env : SeedEnv Seed) (fence : Int -> BwrcRange)
    (exiting : Bool) (len : Nat) (th : SeedThread Seed) : Prop where
  own : DrawsOwn env.totalBwrcThreads th.option th.oper -> forall fuel,
    exists th', randomBlkno env (.still fence exiting) fuel len th = some th' ∧
      Lands th.blk.minBlkno th.blk.maxBlkno th.blk.lbaAlign (len / env.blksize) th'.blk.blkno0
  behind : ¬ DrawsOwn env.totalBwrcThreads th.option th.oper -> forall fuel th1 index randNo num,
      waitFencepost env (.still fence exiting) fuel th (len / env.blksize) =
        some (th1, index, randNo, num) ->
      exists th', randomBlkno env (.still fence exiting) fuel len th = some th' ∧
        Lands (fence index).minLba (fence index).maxLba th.blk.lbaAlign num th'.blk.blkno0

/-- A fencepost behind which every draw lands: it leaves room for the alignment and for the
blocks that it grants, of which a transfer that was shortened takes all. -/
def BwrcRange.Roomy (f : BwrcRange) (exiting : Bool) (lbaAlign numBlks : Nat) : Prop :=
  (f.Ready lbaAlign numBlks -> f.minLba + lbaAlign + numBlks ≤ f.maxLba) ∧
    (¬ f.Ready lbaAlign numBlks -> exiting = true ->
      f.minLba + lbaAlign + (if f.room lbaAlign ≤ numBlks then 0 else numBlks) ≤ f.maxLba)

section

variable {f : BwrcRange} {exiting : Bool} {numBlks randNo : Nat} {c : BlkContext}

theorem spread_granted (hmax : f.maxLba < 2 ^ 64) (hroom : f.minLba + c.lbaAlign ≤ f.maxLba)
    (randNo : Nat) :
    exists blk, spread f.minLba f.maxLba c.lbaAlign
        (f.maxLba - f.minLba - c.lbaAlign) randNo = some blk ∧
      Lands f.minLba f.maxLba c.lbaAlign (f.maxLba - f.minLba - c.lbaAlign) (c.alignUp blk) := by
  have hwidth : u64 ((f.maxLba : Int) - f.minLba - c.lbaAlign -
      (f.maxLba - f.minLba - c.lbaAlign : Nat) + 1) = 1 := u64_eq (by omega) (by decide)
  refine ⟨f.minLba, ?_, ?_⟩
  · unfold spread
    rw [hwidth, if_neg one_ne_zero]
    refine congrArg some (u64_eq ?_ (by omega))
    rw [cast_one, Int.emod_one, Int.add_zero]
  · rcases @alignUp_shift c f.minLba (by omega) with ⟨d, hd, halign, hdvd⟩
    have heq : c.alignUp f.minLba = f.minLba + d := by
      rw [halign]
      exact u64_eq rfl (by omega)
    rw [heq]
    exact ⟨hdvd, by omega, by omega⟩

theorem BwrcRange.Roomy.lands (hf : f.Roomy exiting c.lbaAlign numBlks) (hmax : f.maxLba < 2 ^ 64)
    (hpos : 0 < numBlks) (hready : f.Ready c.lbaAlign numBlks ∨ exiting = true) (randNo : Nat) :
    exists blk, spread f.minLba f.maxLba c.lbaAlign
        (f.granted c.lbaAlign numBlks) randNo = some blk ∧
      Lands f.minLba f.maxLba c.lbaAlign (f.granted c.lbaAlign numBlks) (c.alignUp blk) := by
  unfold granted
  by_cases hr : f.Ready c.lbaAlign numBlks
  · rw [if_pos (.inl hr)]
    exact spread_lands hmax hpos (hf.1 hr) randNo
  · have hexit := hf.2 hr (hready.resolve_left hr)
    by_cases hroom : f.room c.lbaAlign ≤ numBlks
    · rw [if_pos hroom, add_zero] at hexit
      have hnum : u64 ((f.maxLba : Int) - f.minLba - c.lbaAlign) =
          f.maxLba - f.minLba - c.lbaAlign := u64_eq (by omega) (by omega)
      rw [if_neg (by rintro (h | h); exacts [hr h, h hroom]), hnum]
      exact spread_granted hmax hexit randNo
    · rw [if_neg hroom] at hexit
      rw [if_pos (.inr hroom)]
      exact spread_lands hmax hpos hexit randNo

theorem BwrcRange.Roomy.of_lands (hmin : f.minLba < 2 ^ 64) (hmax : f.maxLba < 2 ^ 64)
    (halign : c.lbaAlign < 2 ^ 31) (hlow : 2 ^ 31 ≤ randNo) (hhigh : randNo < 2 ^ 63)
    (hlands : f.Ready c.lbaAlign numBlks ∨ exiting = true ->
      exists blk, spread f.minLba f.maxLba c.lbaAlign
          (f.granted c.lbaAlign numBlks) randNo = some blk ∧
        Lands f.minLba f.maxLba c.lbaAlign (f.granted c.lbaAlign numBlks) (c.alignUp blk)) :
    f.Roomy exiting c.lbaAlign numBlks := by
  have hmiss : forall {num}, (exists blk, spread f.minLba f.maxLba c.lbaAlign num
      randNo = some blk ∧ Lands f.minLba f.maxLba c.lbaAlign num (c.alignUp blk)) ->
        f.minLba + c.lbaAlign + num ≤ f.maxLba := by
    intro num h
    by_contra hroom
    exact spread_misses hmin hmax halign hroom hlow hhigh h
  constructor
  · intro hr
    have h := hmiss (hlands (.inl hr))
    rwa [granted, if_pos (.inl hr)] at h
  · intro hr hexit
    have h := hmiss (hlands (.inr hexit))
    unfold granted at h
    by_cases hroom : f.room c.lbaAlign ≤ numBlks
    · rw [if_neg (by rintro (h | h); exacts [hr h, h hroom])] at h
      rw [if_pos hroom]
      omega
    · rw [if_pos (.inr hroom)] at h
      rw [if_neg hroom]
      exact h

end

def SeedThread.ofRule {Seed : Type} (c : ThreadContext) (option : RuleOption) (seed : Seed) :
    SeedThread Seed :=
  { ofContext c seed with option := option }

def SeedEnv.twoDraws (blksize total : Nat) (first second : Int) : SeedEnv Bool where
  nrand48 := fun seed => if seed then (second, false) else (first, true)
  blksize := blksize
  totalBwrcThreads := total

theorem draw64_twoDraws (blksize total : Nat) {i : Nat} (hi : i < 2 ^ 31) :
    draw64 (twoDraws blksize total 1 i) false = (2 ^ 32 + i, false) := by
  have hrand : rand64 1 i = 2 ^ 32 + i := by
    unfold rand64
    rw [u64_eq (n := 2 ^ 32) (by decide) (by decide)]
    omega
  exact congrArg (fun n => (n, false)) hrand

theorem SeedEnv.twoDraws_draws (blksize total : Nat) {i : Nat} (hi : i < 2 ^ 31) :
    (twoDraws blksize total 1 i).Draws := by
  intro seed
  cases seed with
  | false =>
    change (0 : Int) ≤ 1 ∧ (1 : Int) < 2 ^ 31
    decide
  | true =>
    change 0 ≤ (i : Int) ∧ (i : Int) < 2 ^ 31
    omega

structure RandomSetting (c : ThreadContext) (fence : Int -> BwrcRange) (total blksize len : Nat) :
    Prop where
  minBlkno_lt : c.minBlkno < 2 ^ 64
  maxBlkno_lt : c.maxBlkno < 2 ^ 64
  lbaAlign_lt : c.lbaAlign < 2 ^ 31
  fence_lt : forall i, (fence i).minLba < 2 ^ 64 ∧ (fence i).maxLba < 2 ^ 64
  total_lt : total < 2 ^ 31
  blksize_pos : 0 < blksize
  blksize_le : blksize ≤ len

section

variable {Seed : Type} {env : SeedEnv Seed} {c : ThreadContext} {fence : Int -> BwrcRange}
  {exiting : Bool} {option : RuleOption} {len fuel : Nat} {seed : Seed}

theorem randomBlkno_own (hown : DrawsOwn env.totalBwrcThreads option c.oper) :
    randomBlkno env (.still fence exiting) fuel len (.ofRule c option seed) =
      (spread c.minBlkno c.maxBlkno c.lbaAlign (len / env.blksize)
        (draw64 env seed).1).map
          (moveTo { ofRule c option seed with
            seed := (draw64 env seed).2 }) :=
  if_pos hown

theorem randomBlkno_behind (hown : ¬ DrawsOwn env.totalBwrcThreads option c.oper) :
    randomBlkno env (.still fence exiting) fuel len (.ofRule c option seed) =
      (waitFencepost env (.still fence exiting) fuel (.ofRule c option seed)
        (len / env.blksize)).bind fun (th', index, randNo, num) =>
          (spread (fence index).minLba (fence index).maxLba th'.blk.lbaAlign num
            randNo).map (moveTo { th' with clock := th'.clock + 1 }) :=
  if_neg hown

theorem randomBlkno_own_lands (hmax : c.maxBlkno < 2 ^ 64) (hpos : 0 < len / env.blksize)
    (hown : DrawsOwn env.totalBwrcThreads option c.oper)
    (hroom : c.minBlkno + c.lbaAlign + len / env.blksize ≤ c.maxBlkno) :
    exists th', randomBlkno env (.still fence exiting) fuel len (.ofRule c option seed) = some th' ∧
      Lands c.minBlkno c.maxBlkno c.lbaAlign (len / env.blksize) th'.blk.blkno0 := by
  rcases spread_lands hmax hpos hroom (draw64 env seed).1 with ⟨blk, hspread, hlands⟩
  rw [randomBlkno_own hown, hspread]
  exact ⟨_, rfl, hlands⟩

theorem randomBlkno_behind_lands (hmax : forall i, (fence i).maxLba < 2 ^ 64)
    (hpos : 0 < len / env.blksize) (hown : ¬ DrawsOwn env.totalBwrcThreads option c.oper)
    (hroomy : forall i : Nat, i < env.totalBwrcThreads ->
      (fence i).Roomy exiting c.lbaAlign (len / env.blksize))
    {th1 : SeedThread Seed} {index randNo num : Nat}
    (hwait : waitFencepost env (.still fence exiting) fuel (.ofRule c option seed)
      (len / env.blksize) = some (th1, index, randNo, num)) :
    exists th', randomBlkno env (.still fence exiting) fuel len (.ofRule c option seed) = some th' ∧
      Lands (fence index).minLba (fence index).maxLba c.lbaAlign num th'.blk.blkno0 := by
  have htotal : env.totalBwrcThreads ≠ 0 := fun h => hown (.inr (.inl h))
  rcases waitFencepost_spec htotal hwait with ⟨hindex, halign, hready, hnum⟩
  change th1.blk.lbaAlign = c.lbaAlign at halign
  change (fence index).Ready c.lbaAlign _ ∨ _ at hready
  change num = (fence index).granted c.lbaAlign _ at hnum
  have hf := hroomy index hindex
  rw [← halign] at hf hready hnum
  rcases hf.lands (hmax index) hpos hready randNo with ⟨blk, hspread, hlands⟩
  rw [← hnum] at hspread hlands
  rw [halign] at hlands
  rw [randomBlkno_behind hown, hwait, bind_some]
  refine ⟨_, congrArg (Option.map _) hspread, hlands⟩

end

/-- Every draw lands, exactly if the range has a block to spare besides the transfer and
the alignment, or all fenceposts are roomy. -/
theorem randomBlkLands_iff {c : ThreadContext} {fence : Int -> BwrcRange} {exiting : Bool}
    {option : RuleOption} {total blksize len : Nat}
    (hs : RandomSetting c fence total blksize len) :
    (forall (Seed : Type) (env : SeedEnv Seed) (seed : Seed), env.blksize = blksize ->
        env.totalBwrcThreads = total -> env.Draws ->
          RandomBlkLands env fence exiting len (.ofRule c option seed)) <->
      (DrawsOwn total option c.oper -> c.minBlkno + c.lbaAlign + len / blksize ≤ c.maxBlkno) ∧
        (¬ DrawsOwn total option c.oper -> forall i : Nat, i < total ->
          (fence i).Roomy exiting c.lbaAlign (len / blksize)) := by
  have hpos : 0 < len / blksize := div_pos hs.blksize_le hs.blksize_pos
  constructor
  · intro hall
    constructor
    · intro hown
      have hdraws := twoDraws_draws blksize total (Nat.two_pow_pos 31)
      rcases (hall Bool (.twoDraws blksize total 1 (0 : Nat)) false rfl rfl hdraws).own hown 0 with
        ⟨th', heq, hlands⟩
      rw [randomBlkno_own hown, draw64_twoDraws blksize total (Nat.two_pow_pos 31)] at heq
      rcases map_eq_some_iff.mp heq with ⟨blk, hspread, hmove⟩
      rw [← hmove] at hlands
      by_contra hroom
      exact spread_misses hs.minBlkno_lt hs.maxBlkno_lt hs.lbaAlign_lt hroom (by decide) (by decide)
        ⟨blk, hspread, hlands⟩
    · intro hown i hi
      have hlt : i < 2 ^ 31 := hi.trans hs.total_lt
      have hdraws := twoDraws_draws blksize total hlt
      have hbehind := (hall Bool (.twoDraws blksize total 1 i) false rfl rfl hdraws).behind hown 1
      have hdraw := draw64_twoDraws blksize total hlt
      refine BwrcRange.Roomy.of_lands (c := c.toBlkContext) (hs.fence_lt i).1 (hs.fence_lt i).2
        hs.lbaAlign_lt (show 2 ^ 31 ≤ 2 ^ 32 + i by omega) (by omega) ?_
      intro hstop
      have hindex : (draw64 (twoDraws blksize total 1 i) false).1 % 2 ^ 32 %
          total = i := by
        rw [hdraw]
        rw [add_mod_left, mod_eq_of_lt (show i < 2 ^ 32 by omega), mod_eq_of_lt hi]
      have hwait := @waitFencepost_stops Bool (.twoDraws blksize total 1 i) fence exiting
        (.ofRule c option false) (len / blksize) i hindex hstop
      rcases hwait with ⟨th1, hwait, halign⟩
      rcases hbehind _ _ _ _ hwait with ⟨th', heq, hlands⟩
      rw [randomBlkno_behind hown] at heq
      change (waitFencepost _ _ _ _ (len / blksize)).bind _ = _ at heq
      rw [hwait, bind_some] at heq
      rcases map_eq_some_iff.mp heq with ⟨blk, hspread, hmove⟩
      have hblk : th'.blk.blkno0 = c.alignUp blk := by
        rw [← hmove]
        exact alignUp_congr halign blk
      rw [halign] at hspread
      rw [hblk] at hlands
      refine ⟨blk, ?_, hlands⟩
      rw [← hspread]
      exact congrArg (spread _ _ _ _) (congrArg Prod.fst hdraw).symm
  · rintro ⟨hownRoom, hfences⟩ Seed env seed rfl rfl _
    constructor
    · intro hown fuel
      exact randomBlkno_own_lands hs.maxBlkno_lt hpos hown (hownRoom hown)
    · intro hown fuel th1 index randNo num hwait
      exact randomBlkno_behind_lands (fun i => (hs.fence_lt i).2) hpos hown (hfences hown) hwait

def randomContext (total len lbaAlign : Nat) : Option ThreadContext :=
  ({ ThreadContext.initial with oper := "RC" }).applyRuleSettings ⟨999, 512⟩ total
    (fun _ => ThreadContext.initial)
    { sizedRule ⟨len, len, 0⟩ with
      seekBreakupPrcnt := [some 100]
      maxBlkno := [9]
      lbaAlign := [lbaAlign] } 0

theorem randomBlkLands_four_blocks :
    exists c, randomContext 0 2048 0 = some c ∧
      forall (Seed : Type) (env : SeedEnv Seed) (seed : Seed), env.blksize = 512 ->
        env.totalBwrcThreads = 0 -> env.Draws ->
          RandomBlkLands env (fun _ => ⟨0, 0, .up⟩) false 2048 (.ofRule c .default seed) := by
  refine ⟨_, rfl, (randomBlkLands_iff ?_).mpr ⟨fun _ => ?_, fun hown => ?_⟩⟩
  · exact ⟨by decide +kernel, by decide +kernel, by decide +kernel, fun _ => ⟨by decide, by decide⟩,
      by decide, by decide, by decide⟩
  · decide +kernel
  · exact absurd (.inr (.inl rfl)) hown

/-- A transfer of all ten blocks divides by zero.  Behind a fencepost with less blocks than
the alignment the difference wraps, and a draw goes far beyond it. -/
theorem randomBlk_out_of_range : (exists c, randomContext 0 5120 0 = some c ∧
      randomBlkno (.twoDraws 512 0 1 0) (.still (fun _ => ⟨0, 0, .up⟩) false) 1 5120
        (.ofRule c .default false) = none) ∧
    (exists c th', randomContext 1 512 8 = some c ∧
      randomBlkno (.twoDraws 512 1 1 0) (.still (fun _ => ⟨0, 3, .up⟩) false) 1 512
        (.ofRule c .default false) = some th' ∧ 2 ^ 32 ≤ th'.blk.blkno0) :=
  ⟨⟨_, rfl, by rfl⟩, ⟨_, _, rfl, rfl, by decide +kernel⟩⟩

end Htx.Hxestorage
