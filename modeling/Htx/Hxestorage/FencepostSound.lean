import Htx.Hxestorage.Fencepost
import Htx.Hxestorage.SequentialZone

/-!
# What the fenceposts promise

`initialize_fencepost` publishes the first block of the zone before anything is written,
and `seg_unlock` publishes the released range whether or not it was written.
-/

namespace Htx.Hxestorage

open BlkContext Option Library FenceState

def BlkContext.edge (c : BlkContext) : Nat :=
  match c.direction with
  | .down => c.maxBlkno
  | _ => c.minBlkno

def FenceThread.BodyWritten (th : FenceThread) : Prop :=
  forall i, i < th.ctx.numBlks -> th.written (th.ctx.blkno0 + i) = true

instance (th : FenceThread) : Decidable th.BodyWritten :=
  inferInstanceAs (Decidable (forall i, i < _ -> _))

instance (c : BlkContext) : Decidable (Unrounded c) :=
  inferInstanceAs (Decidable (_ ∨ _ ∨ _))

/-- A range is released after all of it has been written, the next position is
not moved by alignment, and no worker starts on a shortened transfer that an
earlier worker left behind. -/
def FenceGuard (s : FenceState) : FenceEvent -> Prop
  | .start k => (s k).ctx.doPartial = 0
  | .segUnlock k =>
    (s k).BodyWritten ∧ ((s k).phase = .operated false -> Unrounded (s k).ctx)
  | _ => True

instance (s : FenceState) : (e : FenceEvent) -> Decidable (FenceGuard s e)
  | .start _ => inferInstanceAs (Decidable (_ = _))
  | .segLock _ | .operate _ _ _ => isTrue trivial
  | .segUnlock _ => inferInstanceAs (Decidable (_ ∧ (_ -> _)))

/-!
# Steps of one thread
-/

inductive FenceMove (blksize : Nat) (th : FenceThread) : FenceThread -> Prop
  | start : th.phase = .idle -> th.ctx.doPartial = 0 -> FenceMove blksize th th.start
  | segLock : th.phase = .top -> FenceMove blksize th (th.segLock blksize)
  | operate (blocks : Nat) (failed : Bool) : th.phase = .locked ->
      FenceMove blksize th (th.operate blocks failed)
  | segUnlock (failed : Bool) : th.phase = .operated failed -> th.BodyWritten ->
      (failed = false -> Unrounded th.ctx) ->
      FenceMove blksize th (th.segUnlock blksize failed)

theorem FenceState.step_move {blksize n : Nat} {s t : FenceState} {e : FenceEvent}
    (hguard : FenceGuard s e) (h : s.step blksize n e = some t) :
    exists k th', FenceMove blksize (s k) th' ∧ t = Function.update s k th' := by
  cases e with
  | start k =>
    simp only [step, ite_none_right_eq_some, some.injEq] at h
    exact ⟨k, _, .start h.1.2 hguard, h.2.symm⟩
  | segLock k =>
    simp only [step, ite_none_right_eq_some, some.injEq] at h
    exact ⟨k, _, .segLock h.1.2, h.2.symm⟩
  | operate k blocks failed =>
    simp only [step, ite_none_right_eq_some, some.injEq] at h
    exact ⟨k, _, .operate blocks failed h.1.2.1, h.2.symm⟩
  | segUnlock k =>
    simp only [step, ite_none_right_eq_some] at h
    have hmatch := h.2
    cases hphase : (s k).phase with
    | operated failed =>
      rw [hphase] at hmatch
      have hmove : FenceMove blksize (s k) ((s k).segUnlock blksize failed) := by
        refine .segUnlock failed hphase hguard.1 ?_
        intro hok
        rw [hok] at hphase
        exact hguard.2 hphase
      exact ⟨k, _, hmove, (Option.some.inj hmatch).symm⟩
    | _ =>
      rw [hphase] at hmatch
      cases hmatch

theorem FenceMove.written {blksize b : Nat} {th th' : FenceThread}
    (hmove : FenceMove blksize th th') (hb : th.written b = true) : th'.written b = true := by
  cases hmove with
  | start | segLock => exact hb
  | operate blocks failed => exact Bool.or_eq_true_iff.mpr (.inl hb)
  | segUnlock failed => cases failed <;> exact hb

theorem run_written {blksize n k b : Nat} {ctx : Nat -> BlkContext} {s t : FenceState}
    {events : List FenceEvent} (hadmits : (fenceSystem blksize n ctx).Admits FenceGuard s events)
    (hrun : (fenceSystem blksize n ctx).run s events = some t) (hb : (s k).written b = true) :
    (t k).written b = true := by
  induction events generalizing s with
  | nil =>
    cases hrun
    exact hb
  | cons e rest ih =>
    cases hst : (fenceSystem blksize n ctx).step s e with
    | none => simp [EventSystem.run, hst] at hrun
    | some u =>
      simp only [EventSystem.run, hst] at hrun
      simp only [EventSystem.Admits, hst] at hadmits
      refine ih hadmits.2 hrun ?_
      obtain ⟨j, th', hmove, rfl⟩ := FenceState.step_move hadmits.1 hst
      rcases eq_or_ne k j with rfl | hne
      · rw [Function.update_self]
        exact hmove.written hb
      · rw [Function.update_of_ne hne]
        exact hb

/-!
# Sweeping the zone
-/

inductive SweepTop (c0 c : BlkContext) (written : Nat -> Bool) : Prop
  | up : c0.direction = .up -> UpTop c0 c ->
      (forall b, c0.minBlkno ≤ b -> b < c.blkno0 -> written b = true) ->
      SweepTop c0 c written
  | down (pos : Int) : c0.direction = .down -> DownTop c0 c pos ->
      (forall b : Nat, pos + c0.numBlks ≤ b -> b ≤ c0.maxBlkno -> written b = true) ->
      SweepTop c0 c written

inductive SweepLocked (c0 c : BlkContext) (written : Nat -> Bool) : Prop
  | up : c0.direction = .up -> UpLocked c0 c ->
      (forall b, c0.minBlkno ≤ b -> b < c.blkno0 -> written b = true) ->
      SweepLocked c0 c written
  | down : c0.direction = .down -> DownLocked c0 c ->
      (forall b, c.blkno0 + c.numBlks ≤ b -> b ≤ c0.maxBlkno -> written b = true) ->
      SweepLocked c0 c written

section

variable {blksize : Nat} {c0 c : BlkContext} {written : Nat -> Bool}

theorem SweepTop.of_init (hz : EdgeZone blksize c0) (hsame : SameZone c0 c)
    (hfull : FullLength c0 c) : SweepTop c0 c.initBlkno written := by
  have hfresh : c.initBlkno = { c.initBlkno with doPartial := 0 } := by
    rcases hz.upDown with hdir | hdir
    · rw [initBlkno_up hz hdir hsame hfull.2.1, ← hfull.1]
    · rw [initBlkno_down hz hdir hsame hfull.2.1, ← hfull.1]
  rw [hfresh]
  rcases hz.upDown with hdir | hdir
  · have htop := UpTop.of_init hz hdir hsame hfull.2.1 hfull.2.2
    refine .up hdir htop ?_
    intro b hlow hhigh
    rw [initBlkno_up hz hdir hsame hfull.2.1] at hhigh
    exact absurd hhigh (not_lt.mpr hlow)
  · have htop := DownTop.of_init hz hdir hsame hfull.2.1 hfull.2.2
    refine .down _ hdir htop ?_
    intro b hlow hhigh
    unfold topPosition at hlow
    omega

theorem SweepTop.check (hz : EdgeZone blksize c0) (h : SweepTop c0 c written) :
    SweepLocked c0 (c.doBoundaryCheck blksize) written := by
  cases h with
  | up hdir htop hdone =>
    rcases htop.check hz hdir with ⟨hlocked, hblk⟩
    refine .up hdir hlocked ?_
    intro b hlow hhigh
    rcases hblk with hblk | hblk
    · rw [hblk] at hhigh
      exact hdone b hlow hhigh
    · rw [hblk] at hhigh
      exact absurd hhigh (not_lt.mpr hlow)
  | down pos hdir htop hdone =>
    rcases htop.check hz hdir with ⟨hlocked, hend⟩
    refine .down hdir hlocked ?_
    intro b hlow hhigh
    rcases hend with hend | hend
    · apply hdone b _ hhigh
      rw [← hend]
      exact_mod_cast hlow
    · omega

theorem SweepLocked.inZone (h : SweepLocked c0 c written) : InZone c0 c := by
  cases h with
  | up _ hlocked _ | down _ hlocked _ => exact hlocked.toInZone

theorem SweepLocked.mono {more : Nat -> Bool} (h : SweepLocked c0 c written)
    (hmore : forall b, written b = true -> more b = true) : SweepLocked c0 c more := by
  cases h with
  | up hdir hlocked hdone =>
    exact .up hdir hlocked fun b hlow hhigh => hmore b (hdone b hlow hhigh)
  | down hdir hlocked hdone =>
    exact .down hdir hlocked fun b hlow hhigh => hmore b (hdone b hlow hhigh)

variable (hbody : forall i, i < c.numBlks -> written (c.blkno0 + i) = true)

include hbody

theorem written_of_body {b : Nat} (hlow : c.blkno0 ≤ b) (hhigh : b < c.blkno0 + c.numBlks) :
    written b = true := by
  have hb := hbody (b - c.blkno0) (by omega)
  rwa [Nat.add_sub_cancel' hlow] at hb

theorem SweepLocked.swept (h : SweepLocked c0 c written) :
    (c0.direction = .up ∧ forall b, c0.minBlkno ≤ b -> b < c.blkno0 + c.numBlks ->
        written b = true) ∨
      (c0.direction = .down ∧ forall b, c.blkno0 ≤ b -> b ≤ c0.maxBlkno -> written b = true) := by
  cases h with
  | up hdir _ hdone =>
    refine .inl ⟨hdir, ?_⟩
    intro b hlow hhigh
    rcases lt_or_ge b c.blkno0 with hbelow | habove
    · exact hdone b hlow hbelow
    · exact written_of_body hbody habove hhigh
  | down hdir _ hdone =>
    refine .inr ⟨hdir, ?_⟩
    intro b hlow hhigh
    rcases lt_or_ge b (c.blkno0 + c.numBlks) with hinside | habove
    · exact written_of_body hbody hlow hinside
    · exact hdone b habove hhigh

theorem SweepLocked.next (hz : EdgeZone blksize c0) (h : SweepLocked c0 c written)
    (hround : Unrounded c) : SweepTop c0 (c.setBlkno blksize) written := by
  have hswept := h.swept hbody
  cases h with
  | up hdir hlocked hdone =>
    rcases hlocked.next hz hdir hround with ⟨htop, hblk⟩
    refine .up hdir htop ?_
    intro b hlow hhigh
    rcases hswept with ⟨_, hall⟩ | ⟨hdown, _⟩
    · rcases hblk with hblk | hblk
      · rw [hblk] at hhigh
        exact hall b hlow hhigh
      · rw [hblk] at hhigh
        exact absurd hhigh (not_lt.mpr hlow)
    · rw [hdir] at hdown
      cases hdown
  | down hdir hlocked hdone =>
    rcases hlocked.next hz hdir hround with ⟨pos, htop, hblk⟩
    refine .down pos hdir htop ?_
    intro b hlow hhigh
    rcases hswept with ⟨hup, _⟩ | ⟨_, hall⟩
    · rw [hdir] at hup
      cases hup
    · rcases hblk with hblk | hblk
      · rw [hblk] at hlow
        exact hall b (by exact_mod_cast hlow) hhigh
      · rw [hblk] at hlow
        unfold topPosition at hlow
        omega

end

/-!
# The published range
-/

structure FenceOk (c0 : BlkContext) (written : Nat -> Bool) (f : BwrcRange) : Prop where
  direction : f.direction = c0.direction
  fixedUp : c0.direction = .up -> f.minLba = c0.minBlkno
  fixedDown : c0.direction = .down -> f.maxLba = c0.maxBlkno
  low : f.minLba ≤ c0.edge
  high : c0.edge ≤ f.maxLba
  covered : forall b, f.minLba ≤ b -> b ≤ f.maxLba -> b = c0.edge ∨ written b = true

theorem BlkContext.edge_up {c : BlkContext} (h : c.direction = .up) : c.edge = c.minBlkno := by
  unfold edge
  rw [h]

theorem BlkContext.edge_down {c : BlkContext} (h : c.direction = .down) : c.edge = c.maxBlkno := by
  unfold edge
  rw [h]

section

variable {blksize : Nat} {c0 c : BlkContext} {written : Nat -> Bool} {f : BwrcRange}

theorem FenceOk.initial (hz : EdgeZone blksize c0) :
    FenceOk c0 written (initializeFencepost f c0) := by
  unfold initializeFencepost
  rcases hz.upDown with hdir | hdir
  · have hedge := edge_up hdir
    rw [hdir]
    constructor
    case direction => exact hdir.symm
    case fixedUp => exact fun _ => rfl
    case fixedDown => exact fun hdown => nomatch hdir.symm.trans hdown
    case low => exact hedge.ge
    case high => exact hedge.le
    case covered =>
      intro b hlow hhigh
      exact .inl ((le_antisymm hhigh hlow).trans hedge.symm)
  · have hedge := edge_down hdir
    rw [hdir]
    constructor
    case direction => exact hdir.symm
    case fixedUp => exact fun hup => nomatch hdir.symm.trans hup
    case fixedDown => exact fun _ => rfl
    case low => exact hedge.ge
    case high => exact hedge.le
    case covered =>
      intro b hlow hhigh
      exact .inl ((le_antisymm hhigh hlow).trans hedge.symm)

theorem FenceOk.mono {more : Nat -> Bool} (h : FenceOk c0 written f)
    (hmore : forall b, written b = true -> more b = true) : FenceOk c0 more f :=
  { h with
    covered := fun b hlow hhigh => (h.covered b hlow hhigh).imp_right (hmore b) }

theorem FenceOk.advance (hz : EdgeZone blksize c0) (h : FenceOk c0 written f)
    (hlocked : SweepLocked c0 c written)
    (hbody : forall i, i < c.numBlks -> written (c.blkno0 + i) = true) :
    FenceOk c0 written (f.advance c.blkno0 (u64 (c.blkno0 + c.numBlks - 1))) := by
  have hin := hlocked.inZone
  have hpos := hin.numBlks_pos
  have hlow0 := hin.low
  have hhigh0 := hin.high
  have hbound := hz.bound
  have hlast : u64 (c.blkno0 + c.numBlks - 1) = c.blkno0 + c.numBlks - 1 :=
    u64_eq (by omega) (by omega)
  rw [hlast]
  unfold BwrcRange.advance
  rcases hlocked.swept hbody with ⟨hdir, hall⟩ | ⟨hdir, hall⟩
  · have hmin := h.fixedUp hdir
    have hedge := edge_up hdir
    rw [h.direction, hdir]
    constructor
    case direction => exact hdir.symm
    case fixedUp => exact h.fixedUp
    case fixedDown => exact fun hdown => nomatch hdir.symm.trans hdown
    case low => exact h.low
    case high =>
      rw [hedge]
      show c0.minBlkno ≤ c.blkno0 + c.numBlks - 1
      omega
    case covered =>
      intro b hlow hhigh
      change f.minLba ≤ b at hlow
      change b ≤ c.blkno0 + c.numBlks - 1 at hhigh
      exact .inr (hall b (hmin ▸ hlow) (by omega))
  · have hmax := h.fixedDown hdir
    have hedge := edge_down hdir
    rw [h.direction, hdir]
    constructor
    case direction => exact hdir.symm
    case fixedUp => exact fun hup => nomatch hdir.symm.trans hup
    case fixedDown => exact h.fixedDown
    case low =>
      rw [hedge]
      show c.blkno0 ≤ c0.maxBlkno
      omega
    case high => exact h.high
    case covered =>
      intro b hlow hhigh
      exact .inr (hall b hlow (hmax ▸ hhigh))

end

/-!
# The invariant of a thread
-/

structure FenceInv (c0 : BlkContext) (th : FenceThread) : Prop where
  fence : FenceOk c0 th.written th.fence
  idle : th.phase = .idle -> SameZone c0 th.ctx ∧ (FullLength c0 th.ctx ∨ Shortened c0 th.ctx)
  top : th.phase = .top -> SweepTop c0 th.ctx th.written
  locked : th.phase = .locked ∨ (exists failed, th.phase = .operated failed) ->
    SweepLocked c0 th.ctx th.written

section

variable {blksize : Nat} {c0 : BlkContext} {th th' : FenceThread}

theorem FenceInv.operate (blocks : Nat) (failed : Bool) (h : FenceInv c0 th)
    (hphase : th.phase = .locked) : FenceInv c0 (th.operate blocks failed) := by
  have hmore : forall b, th.written b = true -> (th.operate blocks failed).written b = true := by
    intro b hb
    exact Bool.or_eq_true_iff.mpr (.inl hb)
  constructor
  case fence => exact h.fence.mono hmore
  case idle => exact fun hidle => nomatch hidle
  case top => exact fun htop => nomatch htop
  case locked => exact fun _ => (h.locked (.inl hphase)).mono hmore

variable (hz : EdgeZone blksize c0) (h : FenceInv c0 th)

include hz h

theorem FenceInv.start (hphase : th.phase = .idle) (hrest : th.ctx.doPartial = 0) :
    FenceInv c0 th.start := by
  rcases h.idle hphase with ⟨hsame, hfull | hshort⟩
  · constructor
    case fence => exact h.fence
    case idle => exact fun hidle => nomatch hidle
    case top => exact fun _ => SweepTop.of_init hz hsame hfull
    case locked => exact fun hlocked => by rcases hlocked with h | ⟨_, h⟩ <;> cases h
  · have hone := hshort.1
    rw [hrest] at hone
    cases hone

theorem FenceInv.segLock (hphase : th.phase = .top) : FenceInv c0 (th.segLock blksize) := by
  constructor
  case fence => exact h.fence
  case idle => exact fun hidle => nomatch hidle
  case top => exact fun htop => nomatch htop
  case locked => exact fun _ => (h.top hphase).check hz

theorem FenceInv.segUnlock {failed : Bool} (hphase : th.phase = .operated failed)
    (hbody : th.BodyWritten) (hround : failed = false -> Unrounded th.ctx) :
    FenceInv c0 (th.segUnlock blksize failed) := by
  have hlocked := h.locked (.inr ⟨failed, hphase⟩)
  have hfence := h.fence.advance hz hlocked hbody
  cases failed with
  | true =>
    constructor
    case fence => exact hfence
    case idle => exact fun _ => ⟨hlocked.inZone.same, hlocked.inZone.length⟩
    case top => exact fun htop => nomatch htop
    case locked => exact fun hl => by rcases hl with h | ⟨_, h⟩ <;> cases h
  | false =>
    constructor
    case fence => exact hfence
    case idle => exact fun hidle => nomatch hidle
    case top => exact fun _ => hlocked.next hbody hz (hround rfl)
    case locked => exact fun hl => by rcases hl with h | ⟨_, h⟩ <;> cases h

theorem FenceInv.move (hmove : FenceMove blksize th th') : FenceInv c0 th' := by
  cases hmove with
  | start hphase hrest => exact h.start hz hphase hrest
  | segLock hphase => exact h.segLock hz hphase
  | operate blocks failed hphase => exact h.operate blocks failed hphase
  | segUnlock failed hphase hbody hround => exact h.segUnlock hz hphase hbody hround

end

def FenceState.Inv (blksize : Nat) (ctx : Nat -> BlkContext) (s : FenceState) : Prop :=
  forall k, EdgeZone blksize (ctx k) -> FenceInv (ctx k) (s k)

theorem reachable_fenceInv {blksize n : Nat} {ctx : Nat -> BlkContext} {s : FenceState}
    (h : (fenceSystem blksize n ctx).ReachableUnder FenceGuard s) :
    Inv blksize ctx s := by
  refine EventSystem.ReachableUnder.invariant ?_ ?_ h
  · intro s hs k hz
    cases hs
    constructor
    case fence => exact FenceOk.initial hz
    case idle => exact fun _ => ⟨rfl, .inl ⟨hz.fresh, rfl, rfl⟩⟩
    case top => exact fun htop => nomatch htop
    case locked => exact fun hl => by rcases hl with h | ⟨_, h⟩ <;> cases h
  · intro s e t hinv hguard hstep k hz
    rcases step_move hguard hstep with ⟨j, th', hmove, rfl⟩
    rcases eq_or_ne k j with rfl | hne
    · rw [Function.update_self]
      exact (hinv k hz).move hz hmove
    · rw [Function.update_of_ne hne]
      exact hinv k hz

theorem FenceThread.Sound.admits {th : FenceThread} (h : th.Sound) {blk numBlks b : Nat}
    (hbound : blk + numBlks ≤ 2 ^ 64) (hadmits : th.fence.Admits blk numBlks)
    (hlow : blk ≤ b) (hhigh : b < blk + numBlks) : th.written b = true := by
  have hlast : u64 (blk + numBlks - 1) = blk + numBlks - 1 := u64_eq (by omega) (by omega)
  rcases hadmits with ⟨hmin, hmax⟩
  rw [hlast] at hmax
  exact h b (hmin.trans hlow) (by omega)

/-- When every released range has been written, the published range of a thread
is right exactly when its edge block has been written.  A reader then works on written blocks
only, also when `do_fencepost_check` sends it back to its first position, which
`wait_for_fencepost_catchup` has seen in the published range at some time before. -/
theorem fencepost_sound_iff_edge_written {blksize n : Nat} {ctx : Nat -> BlkContext}
    {s : FenceState} (h : (fenceSystem blksize n ctx).ReachableUnder FenceGuard s)
    (k : Nat) (hz : EdgeZone blksize (ctx k)) :
    ((s k).Sound <-> (s k).written (ctx k).edge = true) ∧ ((s k).written (ctx k).edge = true ->
        forall events t, (fenceSystem blksize n ctx).Admits FenceGuard s events ->
          (fenceSystem blksize n ctx).run s events = some t ->
          forall reader c : BlkContext, c = doFencepostCheck (t k).fence reader ->
            c.blkno0 + c.numBlks ≤ 2 ^ 64 -> (t k).fence.Admits reader.blkno0 reader.numBlks ∨
              (s k).fence.Admits reader.initBlkno.blkno0 reader.initBlkno.numBlks ->
            forall b, c.blkno0 ≤ b -> b < c.blkno0 + c.numBlks -> (t k).written b = true) := by
  have hiff : forall {t}, (fenceSystem blksize n ctx).ReachableUnder FenceGuard t ->
      ((t k).Sound <-> (t k).written (ctx k).edge = true) := by
    intro t ht
    have hfence := (reachable_fenceInv ht k hz).fence
    constructor
    · intro hsound
      exact hsound _ hfence.low hfence.high
    · intro hedge b hlow hhigh
      rcases hfence.covered b hlow hhigh with rfl | hwritten
      · exact hedge
      · exact hwritten
  refine ⟨hiff h, ?_⟩
  rintro hedge events t hguard hrun reader c rfl hbound hreader b hlow hhigh
  by_cases hadmits : (t k).fence.Admits reader.blkno0 reader.numBlks
  · have hsound := (hiff (h.of_run hguard hrun)).mpr (run_written hguard hrun hedge)
    rw [doFencepostCheck, if_pos hadmits] at hbound hlow hhigh
    exact hsound.admits hbound hadmits hlow hhigh
  · rw [doFencepostCheck, if_neg hadmits] at hbound hlow hhigh
    have hfirst := hreader.resolve_left hadmits
    exact run_written hguard hrun (((hiff h).mpr hedge).admits hbound hfirst hlow hhigh)

def upZone : BlkContext where
  direction := .up
  startingBlock := .bot
  minBlkno := 100
  maxBlkno := 119
  increment := 0
  blkHop := 0
  lbaAlign := 0
  numWrites := 1
  firstBlk := 100
  numBlks := 8
  dlen := 4096
  savedDlen := 0
  blkno0 := 0
  blkno1 := 0
  blkno2 := 0
  doPartial := 0

theorem edgeZone_upZone : EdgeZone 512 upZone where
  upDown := by decide
  numWrites := by decide
  blkHop := by decide
  ordered := by decide
  bound := by decide
  numBlks_pos := by decide
  numBlks_lt := by decide
  numBlks_eq := by decide
  first := by decide
  edgeUp := by decide
  edgeDown := by decide
  fresh := by decide

theorem fencepost_sound_first_transfer :
    exists s, (fenceSystem 512 1 fun _ => upZone).ReachableUnder FenceGuard s ∧
      (s 0).fence.maxLba = 107 ∧ (s 0).Sound := by
  have hreach : (fenceSystem 512 1 fun _ => upZone).ReachableUnder FenceGuard _ :=
    EventSystem.ReachableUnder.schedule rfl
      [.start 0, .segLock 0, .operate 0 8 false, .segUnlock 0] rfl (by decide)
  refine ⟨_, hreach, rfl, ?_⟩
  exact (fencepost_sound_iff_edge_written hreach 0 edgeZone_upZone).1.mpr rfl

/-- Before the first write, and after a first write that failed, readers are
admitted to blocks that nobody has written. -/
theorem fencepost_publishes_unwritten : (exists s, (fenceSystem 512 1 fun _ => upZone).Reachable s ∧
      (s 0).fence.Admits 100 1 ∧ (s 0).written 100 = false) ∧
    (exists s, (fenceSystem 512 1 fun _ => upZone).Reachable s ∧
      (s 0).fence.Admits 100 8 ∧ forall b, b < 108 -> (s 0).written b = false) := by
  constructor
  · have hreach := EventSystem.Reachable.schedule
      (S := fenceSystem 512 1 fun _ => upZone) rfl [] rfl
    exact ⟨_, hreach, by decide, rfl⟩
  · have hreach := EventSystem.Reachable.schedule
      (S := fenceSystem 512 1 fun _ => upZone) rfl
      [.start 0, .segLock 0, .operate 0 0 true, .segUnlock 0] rfl
    exact ⟨_, hreach, by decide, by decide⟩

end Htx.Hxestorage
