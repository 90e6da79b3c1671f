import Htx.Library.EventSystem
import Htx.Hxestorage.BlockPosition

/-!
# Fenceposts of the background threads

A BWRC thread works through its zone and publishes in `lba_fencepost` how far it has come;
read/compare threads stay inside the published range.
-/

namespace Htx.Hxestorage

open Function

structure BwrcRange where
  minLba : Nat
  maxLba : Nat
  direction : Direction
  deriving DecidableEq

def initializeFencepost (old : BwrcRange) (c : BlkContext) : BwrcRange :=
  match c.direction with
  | .up => ⟨c.minBlkno, c.minBlkno, .up⟩
  | .down => ⟨c.maxBlkno, c.maxBlkno, .down⟩
  | d => { old with direction := d }

def BwrcRange.advance (f : BwrcRange) (flba llba : Nat) : BwrcRange :=
  match f.direction with
  | .up => { f with maxLba := llba }
  | .down => { f with minLba := flba }
  | _ => f

def BwrcRange.Admits (f : BwrcRange) (blk numBlks : Nat) : Prop :=
  f.minLba ≤ blk ∧ u64 (blk + numBlks - 1) ≤ f.maxLba

instance (f : BwrcRange) (blk numBlks : Nat) : Decidable (f.Admits blk numBlks) :=
  inferInstanceAs (Decidable (_ ∧ _))

def doFencepostCheck (f : BwrcRange) (c : BlkContext) : BlkContext :=
  if f.Admits c.blkno0 c.numBlks then c else c.initBlkno

inductive FencePhase where
  | idle
  | top
  | locked
  | operated (failed : Bool)
  deriving DecidableEq

structure FenceThread where
  ctx : BlkContext
  phase : FencePhase
  fence : BwrcRange
  written : Nat -> Bool

abbrev FenceState :=
  Nat -> FenceThread

inductive FenceEvent where
  | start (k : Nat)
  | segLock (k : Nat)
  | operate (k blocks : Nat) (failed : Bool)
  | segUnlock (k : Nat)
  deriving DecidableEq

namespace FenceThread

def start (th : FenceThread) : FenceThread :=
  { th with ctx := th.ctx.initBlkno, phase := .top }

def segLock (blksize : Nat) (th : FenceThread) : FenceThread :=
  { th with ctx := th.ctx.doBoundaryCheck blksize, phase := .locked }

def operate (th : FenceThread) (blocks : Nat) (failed : Bool) : FenceThread :=
  { th with
    phase := .operated failed
    written := fun b =>
      th.written b || (th.ctx.blkno0 ≤ b && b < th.ctx.blkno0 + blocks) }

def segUnlock (blksize : Nat) (th : FenceThread) (failed : Bool) : FenceThread :=
  let fence := th.fence.advance th.ctx.blkno0 (u64 (th.ctx.blkno0 + th.ctx.numBlks - 1))
  if failed then { th with phase := .idle, fence := fence }
  else { th with ctx := th.ctx.setBlkno blksize, phase := .top, fence := fence }

def Sound (th : FenceThread) : Prop :=
  forall b, th.fence.minLba ≤ b -> b ≤ th.fence.maxLba -> th.written b = true

end FenceThread

namespace FenceState

def step (blksize n : Nat) (s : FenceState) : FenceEvent -> Option FenceState
  | .start k =>
    if k < n ∧ (s k).phase = .idle then
      some (update s k (s k).start)
    else none
  | .segLock k =>
    if k < n ∧ (s k).phase = .top then
      some (update s k ((s k).segLock blksize))
    else none
  | .operate k blocks failed =>
    if k < n ∧ (s k).phase = .locked ∧ blocks ≤ (s k).ctx.numBlks then
      some (update s k ((s k).operate blocks failed))
    else none
  | .segUnlock k =>
    if k < n then
      match (s k).phase with
      | .operated failed => some (update s k ((s k).segUnlock blksize failed))
      | _ => none
    else none

def start (ctx : Nat -> BlkContext) : FenceState := fun k =>
  { ctx := ctx k, phase := .idle,
    fence := initializeFencepost ⟨0, 0, .up⟩ (ctx k), written := fun _ => false }

end FenceState

def fenceSystem (blksize n : Nat) (ctx : Nat -> BlkContext) :
    Library.EventSystem FenceState FenceEvent where
  Initial := fun s => s = FenceState.start ctx
  step := FenceState.step blksize n

end Htx.Hxestorage
