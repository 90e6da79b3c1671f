import Htx.Hxestorage.SegSlots

/-!
# The invariant of segment locking

The invariant has two sides: the slots of a thread point at entries that are
locked for it, and every locked entry is accounted for by a slot of the thread
it names.
-/

namespace Htx.Hxestorage

open Function Option SegContext

/-!
# The invariant of the whole system
-/

def SegPc.awake : SegPc -> SegPc
  | .waiting i k => .scanning i k
  | pc => pc

def SegPc.Active (m : Nat) : SegPc -> Prop
  | .idle => False
  | .scanning _ k => m < k
  | .waiting _ k => m < k
  | .holding => True
  | .unlocking k => k ≤ m

namespace SegState

variable {tid : Type}

def Own (s : SegState tid) (t : tid) (i j : Nat) : Prop :=
  exists e, s.OwnEntry t i j e

def ThreadInv (L : SegmentLimits) (s : SegState tid) (t : tid) : Prop :=
  match (s.thread t).pc.awake with
  | .idle => True
  | .scanning i k => Locking L (s.thread t).toSegContext (s.Own t) i k
  | .waiting i k => Locking L (s.thread t).toSegContext (s.Own t) i k
  | .holding => Holding L (s.thread t).toSegContext (s.Own t)
  | .unlocking k => Unlocking L (s.thread t).toSegContext (s.Own t) k

def Recorded (s : SegState tid) (t : tid) (i j : Nat) : Prop :=
  exists m, (s.thread t).pc.awake.Active m ∧
    (s.thread t).segTableNum m = some i ∧ (s.thread t).segTableIndex m = some j

def BlockedOn (s : SegState tid) (t : tid) (i : Nat) : Prop :=
  exists j e, s.InUse i j e ∧ e.Overlaps (s.thread t).flba (s.thread t).llba ∧ e.tid ≠ t

structure Inv (L : SegmentLimits) (s : SegState tid) : Prop where
  disjoint : forall i j j' e e', s.InUse i j e -> s.InUse i j' e' -> j ≠ j' ->
    Disjoint e.range e'.range
  ordered : forall i j e, s.InUse i j e -> e.flba ≤ e.llba
  recorded : forall i j e, s.InUse i j e -> s.Recorded e.tid i j
  threads : forall t, ThreadInv L s t
  blocked : forall t i k, (s.thread t).pc = .waiting i k -> i < L.numOfSegTables ∧ s.BlockedOn t i

variable {L : SegmentLimits} {s s' : SegState tid} {u t : tid} {i k a index now : Nat}
  {e : SegmentTableData tid} {c : SegThread}

theorem ThreadInv.mono (h : ThreadInv L s u)
    (hctx : (s'.thread u).toSegContext = (s.thread u).toSegContext)
    (hpc : (s'.thread u).pc.awake = (s.thread u).pc.awake)
    (hown : forall i j, s.Own u i j -> s'.Own u i j) : ThreadInv L s' u := by
  unfold ThreadInv at h ⊢
  rw [hpc, hctx]
  cases hu : (s.thread u).pc.awake with
  | idle => trivial
  | scanning i k | waiting i k | holding | unlocking k =>
    rw [hu] at h
    exact h.mono hown

theorem Own.mono {j : Nat} (hctx : (s'.thread u).toSegContext = (s.thread u).toSegContext)
    (hkeep : forall e, e.tid = u -> s.InUse i j e -> s'.InUse i j e) (h : s.Own u i j) :
    s'.Own u i j := by
  rcases h with ⟨e, huse, hf, hl, ht⟩
  refine ⟨e, hkeep e ht huse, ?_, ?_, ht⟩
  · rw [hf, hctx]
  · rw [hl, hctx]

theorem ThreadInv.slots (h : ThreadInv L s t) (hpc : (s.thread t).pc.awake ≠ .idle) :
    Slots L (s.thread t).toSegContext := by
  unfold ThreadInv at h
  cases ht : (s.thread t).pc.awake with
  | idle => exact absurd ht hpc
  | scanning i k | waiting i k | holding | unlocking k =>
    rw [ht] at h
    exact h.slots

theorem ThreadInv.recorded_unique {j j' : Nat} (h : ThreadInv L s t) (hj : s.Recorded t i j)
    (hj' : s.Recorded t i j') : j = j' := by
  rcases hj with ⟨m, hact, hnum, hidx⟩
  rcases hj' with ⟨m', _, hnum', hidx'⟩
  have hslots : Slots L (s.thread t).toSegContext := by
    apply h.slots
    intro hidle
    rw [hidle] at hact
    exact hact
  have hm : m = m' := by
    rcases lt_trichotomy m m' with hlt | heq | hgt
    · exact absurd (hslots.ascending m m' i i hlt hnum hnum') (lt_irrefl i)
    · exact heq
    · exact absurd (hslots.ascending m' m i i hgt hnum' hnum) (lt_irrefl i)
  subst m'
  rw [hidx] at hidx'
  exact some.inj hidx'

/-!
# Frame rules
-/

structure Frame (s s' : SegState tid) (t : tid) : Prop where
  ctx : forall u, u ≠ t -> (s'.thread u).toSegContext = (s.thread u).toSegContext
  pc : forall u, u ≠ t -> (s'.thread u).pc.awake = (s.thread u).pc.awake
  keep : forall i j e, e.tid ≠ t -> (s'.InUse i j e <-> s.InUse i j e)

theorem Inv.of_frame (h : Inv L s) (hframe : Frame s s' t)
    (hdisjoint : forall i j j' e e', s'.InUse i j e -> s'.InUse i j' e' ->
      j ≠ j' -> e.tid = t -> e'.tid ≠ t -> Disjoint e.range e'.range)
    (hself : forall i j e, s'.InUse i j e -> e.tid = t -> e.flba ≤ e.llba ∧ s'.Recorded t i j)
    (hthread : ThreadInv L s' t)
    (hblocked : forall u i k, (s'.thread u).pc = .waiting i k ->
      i < L.numOfSegTables ∧ s'.BlockedOn u i) : Inv L s' where
  disjoint := by
    intro i j j' e e' he he' hne
    by_cases ht : e.tid = t
    · by_cases ht' : e'.tid = t
      · exact absurd (hthread.recorded_unique (hself i j e he ht).2 (hself i j' e' he' ht').2) hne
      · exact hdisjoint i j j' e e' he he' hne ht ht'
    · by_cases ht' : e'.tid = t
      · exact (hdisjoint i j' j e' e he' he (Ne.symm hne) ht' ht).symm
      · exact h.disjoint i j j' e e' ((hframe.keep i j e ht).mp he)
          ((hframe.keep i j' e' ht').mp he') hne
  ordered := by
    intro i j e he
    by_cases ht : e.tid = t
    · exact (hself i j e he ht).1
    · exact h.ordered i j e ((hframe.keep i j e ht).mp he)
  recorded := by
    intro i j e he
    by_cases ht : e.tid = t
    · rw [ht]
      exact (hself i j e he ht).2
    · rcases h.recorded i j e ((hframe.keep i j e ht).mp he) with
        ⟨m, hact, hnum, hidx⟩
      refine ⟨m, ?_, ?_, ?_⟩
      · rw [hframe.pc e.tid ht]
        exact hact
      · rw [hframe.ctx e.tid ht]
        exact hnum
      · rw [hframe.ctx e.tid ht]
        exact hidx
  threads := by
    intro u
    by_cases hu : u = t
    · rw [hu]
      exact hthread
    · refine (h.threads u).mono (hframe.ctx u hu) (hframe.pc u hu) ?_
      intro i j
      refine Own.mono (hframe.ctx u hu) ?_
      intro e ht he
      exact (hframe.keep i j e (by rw [ht]; exact hu)).mpr he
  blocked := hblocked

theorem Inv.locking (h : Inv L s) (hpc : (s.thread t).pc = .scanning i k) :
    Locking L (s.thread t).toSegContext (s.Own t) i k := by
  have ht := h.threads t
  unfold ThreadInv at ht
  rw [hpc] at ht
  exact ht

theorem Inv.holding (h : Inv L s) (hpc : (s.thread t).pc = .holding) :
    Holding L (s.thread t).toSegContext (s.Own t) := by
  have ht := h.threads t
  unfold ThreadInv at ht
  rw [hpc] at ht
  exact ht

theorem Inv.unlocking (h : Inv L s) (hpc : (s.thread t).pc = .unlocking k) :
    Unlocking L (s.thread t).toSegContext (s.Own t) k := by
  have ht := h.threads t
  unfold ThreadInv at ht
  rw [hpc] at ht
  exact ht

theorem inUse_setTable {b : Nat} {entries : List (SegmentTableData tid)} :
    (s.setTable i entries).InUse a b e <->
      if a = i then entries[b]? = some e ∧ e.inUse = true else s.InUse a b e := by
  unfold InUse setTable
  by_cases ha : a = i
  · subst a
    simp
  · simp [ha]

theorem broadcast_ctx (u : tid) :
    ((s.broadcast i).thread u).toSegContext = (s.thread u).toSegContext := by
  unfold broadcast
  simp only
  cases (s.thread u).pc with
  | waiting i' k =>
    simp only
    split <;> rfl
  | _ => rfl

theorem broadcast_awake (u : tid) :
    ((s.broadcast i).thread u).pc.awake = (s.thread u).pc.awake := by
  unfold broadcast
  simp only
  cases hu : (s.thread u).pc with
  | waiting i' k =>
    simp only
    split
    · rfl
    · rw [hu]
  | _ =>
    rw [hu]

theorem broadcast_wakes (h : (s.thread u).pc = .waiting i k) :
    ((s.broadcast i).thread u).pc = .scanning i k := by
  unfold broadcast
  simp [h]

theorem broadcast_waiting (h : ((s.broadcast i).thread u).pc = .waiting a k) :
    a ≠ i ∧ (s.thread u).pc = .waiting a k := by
  unfold broadcast at h
  simp only at h
  cases hu : (s.thread u).pc with
  | waiting i' k' =>
    simp only [hu] at h
    split at h
    · cases h
    · rename_i hne
      rw [hu] at h
      cases h
      exact ⟨hne, rfl⟩
  | _ =>
    simp only [hu] at h
    cases h

variable [DecidableEq tid]

@[simp] theorem setThread_self : (s.setThread t c).thread t = c :=
  update_self _ _ _

theorem setThread_of_ne (hu : u ≠ t) : (s.setThread t c).thread u = s.thread u :=
  update_of_ne hu _ _

theorem frame_setThread (s : SegState tid) (t : tid) (c : SegThread) :
    Frame s (s.setThread t c) t where
  ctx := by
    intro u hu
    rw [setThread_of_ne hu]
  pc := by
    intro u hu
    rw [setThread_of_ne hu]
  keep := fun _ _ _ _ => Iff.rfl

theorem Inv.setThread (h : Inv L s) (hthread : ThreadInv L (s.setThread t c) t)
    (hrec : forall i j, s.Recorded t i j -> (s.setThread t c).Recorded t i j)
    (hblocked : forall i k, c.pc = .waiting i k ->
      i < L.numOfSegTables ∧ (s.setThread t c).BlockedOn t i) :
    Inv L (s.setThread t c) := by
  refine h.of_frame (frame_setThread s t c) ?_ ?_ hthread ?_
  · intro i j j' e e' he he' hne _ _
    exact h.disjoint i j j' e e' he he' hne
  · intro i j e he ht
    refine ⟨h.ordered i j e he, ?_⟩
    have hr := h.recorded i j e he
    rw [ht] at hr
    exact hrec i j hr
  · intro u i k hpc
    by_cases hu : u = t
    · subst u
      rw [setThread_self] at hpc
      exact hblocked i k hpc
    · rw [setThread_of_ne hu] at hpc
      unfold BlockedOn
      rw [setThread_of_ne hu]
      exact h.blocked u i k hpc

theorem Inv.setPc {pc : SegPc} (h : Inv L s)
    (hthread : ThreadInv L (s.setThread t { s.thread t with pc := pc }) t)
    (hact : forall m, (s.thread t).segTableNum m ≠ none ->
      (s.thread t).pc.awake.Active m -> pc.awake.Active m) (hpc : forall i k, pc ≠ .waiting i k) :
    Inv L (s.setThread t { s.thread t with pc := pc }) := by
  refine h.setThread hthread ?_ ?_
  · rintro i j ⟨m, hm, hnum, hidx⟩
    refine ⟨m, ?_, ?_, ?_⟩
    · rw [setThread_self]
      exact hact m (by rw [hnum]; exact some_ne_none i) hm
    · rw [setThread_self]
      exact hnum
    · rw [setThread_self]
      exact hidx
  · intro i k hw
    exact absurd hw (hpc i k)

theorem own_setThread {j : Nat} (hf : c.flba = (s.thread t).flba) (hl : c.llba = (s.thread t).llba)
    (h : s.Own t i j) : (s.setThread t c).Own t i j := by
  rcases h with ⟨e, huse, hef, hel, het⟩
  refine ⟨e, huse, ?_, ?_, het⟩
  · rw [setThread_self, hf]
    exact hef
  · rw [setThread_self, hl]
    exact hel

/-!
# Every move keeps the invariant
-/

theorem Inv.enter {flba llba : Nat} (h : Inv L s) (hpc : (s.thread t).pc = .idle)
    (hdisk : L.OnDisk flba llba) :
    Inv L (s.setThread t
      { pc := .scanning 0 0, flba := flba, llba := llba,
        segTableNum := fun _ => none, segTableIndex := fun _ => none }) := by
  refine h.setThread ?_ ?_ ?_
  · unfold ThreadInv
    rw [setThread_self]
    exact Locking.start hdisk
  · rintro i j ⟨m, hact, _⟩
    rw [hpc] at hact
    exact hact.elim
  · intro i k hw
    cases hw

section

variable (h : Inv L s)

include h

theorem Inv.finish (hpc : (s.thread t).pc = .scanning i k) (hi : L.numOfSegTables ≤ i) :
    Inv L (s.setThread t { s.thread t with pc := .holding }) := by
  refine h.setPc ?_ (fun m _ _ => trivial) (fun i k hw => nomatch hw)
  unfold ThreadInv
  rw [setThread_self]
  exact ((h.locking hpc).finish hi).mono fun i j => own_setThread rfl rfl

theorem Inv.pass (hpc : (s.thread t).pc = .scanning i k) (hi : i < L.numOfSegTables)
    (hv : ¬ L.Visits (s.thread t).flba i) :
    Inv L (s.setThread t { s.thread t with pc := .scanning (i + 1) k }) := by
  refine h.setPc ?_ ?_ (fun i k hw => nomatch hw)
  · unfold ThreadInv
    rw [setThread_self]
    exact ((h.locking hpc).pass hi hv).mono fun i j => own_setThread rfl rfl
  · intro m _ hact
    rw [hpc] at hact
    exact hact

theorem Inv.wake (hpc : (s.thread t).pc = .waiting i k) :
    Inv L (s.setThread t { s.thread t with pc := .scanning i k }) := by
  refine h.setPc ?_ ?_ (fun i k hw => nomatch hw)
  · refine (h.threads t).mono ?_ ?_ fun i j => own_setThread rfl rfl
    · rw [setThread_self]
    · rw [setThread_self, hpc]
      rfl
  · intro m _ hact
    rw [hpc] at hact
    exact hact

theorem Inv.leave (hpc : (s.thread t).pc = .holding) :
    Inv L (s.setThread t { s.thread t with pc := .unlocking 0 }) := by
  refine h.setPc ?_ (fun m _ _ => Nat.zero_le m) (fun i k hw => nomatch hw)
  unfold ThreadInv
  rw [setThread_self]
  exact (h.holding hpc).leave.mono fun i j => own_setThread rfl rfl

theorem Inv.done (hpc : (s.thread t).pc = .unlocking k) (hnum : (s.thread t).segTableNum k = none) :
    Inv L (s.setThread t { s.thread t with pc := .idle }) := by
  refine h.setPc ?_ ?_ (fun i k hw => nomatch hw)
  · unfold ThreadInv
    rw [setThread_self]
    trivial
  · intro m hm hact
    rw [hpc] at hact
    rcases lt_or_eq_of_le hact with hlt | rfl
    · exact (h.unlocking hpc).slots.contiguous k m hlt hm hnum
    · exact hm hnum

end

theorem Inv.wait {j : Nat} {unused : Option Nat} (h : Inv L s)
    (hpc : (s.thread t).pc = .scanning i k) (hi : i < L.numOfSegTables)
    (hv : L.Visits (s.thread t).flba i) (he : s.InUse i j e)
    (hover : e.Overlaps (s.thread t).flba (s.thread t).llba) :
    Inv L (s.setThread t
      { s.thread t with
        pc := .waiting i k
        segTableNum := Function.update (s.thread t).segTableNum k (some i)
        segTableIndex := Function.update (s.thread t).segTableIndex k unused }) := by
  have hlock := h.locking hpc
  refine h.setThread ?_ ?_ ?_
  · unfold ThreadInv
    rw [setThread_self]
    exact (hlock.wait hi hv).mono fun i j => own_setThread rfl rfl
  · rintro a b ⟨m, hact, hnum, hidx⟩
    rw [hpc] at hact
    change m < k at hact
    refine ⟨m, ?_, ?_, ?_⟩
    · rw [setThread_self]
      exact hact
    · rw [setThread_self]
      exact (update_of_ne (by omega) _ _).trans hnum
    · rw [setThread_self]
      exact (update_of_ne (by omega) _ _).trans hidx
  · intro a b hw
    cases hw
    refine ⟨hi, j, e, he, ?_, ?_⟩
    · rw [setThread_self]
      exact hover
    · intro ht
      rcases h.recorded i j e he with ⟨m, hact, hnum, _⟩
      rw [ht, hpc] at hact
      rw [ht] at hnum
      exact absurd (hlock.below m i hact hnum) (lt_irrefl i)

/-!
# Claiming an entry
-/

theorem inUse_claim {b : Nat} (hfree : FreeIndex (s.segTable i) index) :
    (s.claim L t i k index now).InUse a b e <->
      (a = i ∧ b = index ∧ e = claimEntry L (s.thread t) t i now) ∨ s.InUse a b e := by
  change (s.setTable i (putEntry (s.segTable i) index
    (claimEntry L (s.thread t) t i now))).InUse a b e <-> _
  rw [inUse_setTable]
  by_cases ha : a = i
  · subst a
    rw [if_pos rfl, getElem?_putEntry hfree.1]
    by_cases hb : b = index
    · subst b
      rw [if_pos rfl]
      constructor
      · rintro ⟨heq, _⟩
        exact .inl ⟨rfl, rfl, (some.inj heq).symm⟩
      · rintro (⟨_, _, rfl⟩ | hold)
        · exact ⟨rfl, rfl⟩
        · have := hfree.2 e hold.1
          rw [hold.2] at this
          cases this
    · rw [if_neg hb]
      simp [InUse, hb]
  · simp [ha]

theorem frame_claim (hfree : FreeIndex (s.segTable i) index) :
    Frame s (s.claim L t i k index now) t where
  ctx := by
    intro u hu
    exact congrArg SegThread.toSegContext (update_of_ne hu _ _)
  pc := by
    intro u hu
    exact congrArg (fun c : SegThread => c.pc.awake) (update_of_ne hu _ _)
  keep := by
    intro a b e ht
    rw [inUse_claim hfree]
    constructor
    · rintro (⟨_, _, rfl⟩ | hold)
      · exact absurd rfl ht
      · exact hold
    · exact .inr

theorem claim_thread :
    (s.claim L t i k index now).thread t =
      { (s.thread t).toSegContext.fill k i (some index) with
        pc := if (s.thread t).llba ≤ L.lbaUpperLimit i then .holding
          else .scanning (i + 1) (k + 1) } :=
  update_self _ _ _

theorem own_claim {b : Nat} (hfree : FreeIndex (s.segTable i) index) (h : s.Own t a b) :
    (s.claim L t i k index now).Own t a b := by
  rcases h with ⟨e, huse, hf, hl, ht⟩
  refine ⟨e, (inUse_claim hfree).mpr (.inr huse), ?_, ?_, ht⟩
  · rw [claim_thread]
    exact hf
  · rw [claim_thread]
    exact hl

theorem own_claim_self (hfree : FreeIndex (s.segTable i) index) :
    (s.claim L t i k index now).Own t i index := by
  refine ⟨claimEntry L (s.thread t) t i now,
    (inUse_claim hfree).mpr (.inl ⟨rfl, rfl, rfl⟩), ?_, ?_, rfl⟩
  · rw [claim_thread]
    rfl
  · rw [claim_thread]
    rfl

theorem threadInv_claim (h : Locking L (s.thread t).toSegContext (s.Own t) i k)
    (hi : i < L.numOfSegTables) (hv : L.Visits (s.thread t).flba i)
    (hfree : FreeIndex (s.segTable i) index) :
    ThreadInv L (s.claim L t i k index now) t := by
  unfold ThreadInv
  rw [claim_thread]
  by_cases hlast : (s.thread t).llba ≤ L.lbaUpperLimit i
  · rw [if_pos hlast]
    exact h.claim_hold hi hv (fun a b => own_claim hfree) (own_claim_self hfree) hlast
  · rw [if_neg hlast]
    exact h.claim_next hi hv (fun a b => own_claim hfree) (own_claim_self hfree) hlast

theorem recorded_claim {m : Nat} (hm : m ≤ k) :
    ((s.claim L t i k index now).thread t).pc.awake.Active m := by
  rw [claim_thread]
  by_cases hlast : (s.thread t).llba ≤ L.lbaUpperLimit i
  · rw [if_pos hlast]
    trivial
  · rw [if_neg hlast]
    change m < k + 1
    omega

theorem Inv.claim (h : Inv L s) (hpc : (s.thread t).pc = .scanning i k) (hi : i < L.numOfSegTables)
    (hv : L.Visits (s.thread t).flba i) (hfree : FreeIndex (s.segTable i) index)
    (hnone : forall j e, s.InUse i j e -> ¬ e.Overlaps (s.thread t).flba (s.thread t).llba) :
    Inv L (s.claim L t i k index now) := by
  have hlock := h.locking hpc
  have hfl : (s.thread t).flba ≤ (s.thread t).llba := hlock.slots.onDisk.1
  refine h.of_frame (frame_claim hfree) ?_ ?_ (threadInv_claim hlock hi hv hfree) ?_
  · intro a b b' e e' he he' hne ht ht'
    rw [inUse_claim hfree] at he he'
    rcases he' with ⟨_, _, rfl⟩ | hold'
    · exact absurd rfl ht'
    rcases he with ⟨rfl, rfl, rfl⟩ | hold
    · rw [Set.disjoint_iff_inter_eq_empty, ← Set.not_nonempty_iff_eq_empty, Set.inter_comm]
      intro hmeet
      exact hnone b' e' hold'
        ((SegmentTableData.overlaps_iff (h.ordered a b' e' hold') hfl).mpr hmeet)
    · exact h.disjoint a b b' e e' hold hold' hne
  · intro a b e he ht
    rw [inUse_claim hfree] at he
    rcases he with ⟨rfl, rfl, rfl⟩ | hold
    · refine ⟨hfl, k, recorded_claim (le_refl k), ?_, ?_⟩
      · rw [claim_thread]
        exact fill_num_self
      · rw [claim_thread]
        exact fill_index_self
    · refine ⟨h.ordered a b e hold, ?_⟩
      rcases h.recorded a b e hold with ⟨m, hact, hnum, hidx⟩
      rw [ht, hpc] at hact
      rw [ht] at hnum hidx
      change m < k at hact
      refine ⟨m, recorded_claim (by omega), ?_, ?_⟩
      · rw [claim_thread]
        exact (fill_num_of_ne (by omega)).trans hnum
      · rw [claim_thread]
        exact (fill_index_of_ne (by omega)).trans hidx
  · intro u a b hw
    by_cases hu : u = t
    · subst u
      rw [claim_thread] at hw
      by_cases hlast : (s.thread t).llba ≤ L.lbaUpperLimit i
      · simp [hlast] at hw
      · simp [hlast] at hw
    · have hthread : (s.claim L t i k index now).thread u = s.thread u := update_of_ne hu _ _
      rw [hthread] at hw
      rcases h.blocked u a b hw with ⟨ha, j, e, he, hover, hne⟩
      refine ⟨ha, j, e, (inUse_claim hfree).mpr (.inr he), ?_, hne⟩
      rw [hthread]
      exact hover

/-!
# Releasing an entry
-/

def released (s : SegState tid) (t : tid) (k i index : Nat)
    (e : SegmentTableData tid) : SegState tid :=
  ((s.setTable i ((s.segTable i).set index { e with inUse := false })).setThread t
    { s.thread t with pc := .unlocking (k + 1) }).broadcast i

theorem inUse_released {b : Nat} {e' : SegmentTableData tid} (he : s.InUse i index e) :
    (s.released t k i index e).InUse a b e' <-> s.InUse a b e' ∧ ¬ (a = i ∧ b = index) := by
  change (s.setTable i ((s.segTable i).set index { e with inUse := false })).InUse a b e' <-> _
  rw [inUse_setTable]
  rcases List.getElem?_eq_some_iff.mp he.1 with ⟨hlen, _⟩
  by_cases ha : a = i
  · subst a
    rw [if_pos rfl, List.getElem?_set]
    by_cases hb : b = index
    · subst b
      rw [if_pos rfl, if_pos hlen]
      constructor
      · rintro ⟨heq, huse⟩
        rw [← some.inj heq] at huse
        cases huse
      · rintro ⟨_, hne⟩
        exact absurd ⟨rfl, rfl⟩ hne
    · rw [if_neg (Ne.symm hb)]
      simp [InUse, hb]
  · simp [ha]

theorem released_ctx (u : tid) :
    ((s.released t k i index e).thread u).toSegContext = (s.thread u).toSegContext := by
  refine (broadcast_ctx u).trans ?_
  by_cases hu : u = t
  · subst u
    rw [setThread_self]
  · exact congrArg SegThread.toSegContext (setThread_of_ne hu)

theorem released_awake_self :
    ((s.released t k i index e).thread t).pc.awake = .unlocking (k + 1) := by
  refine (broadcast_awake t).trans ?_
  rw [setThread_self]
  rfl

theorem frame_released (he : s.InUse i index e) (ht : e.tid = t) :
    Frame s (s.released t k i index e) t where
  ctx := fun u _ => released_ctx u
  pc := by
    intro u hu
    refine (broadcast_awake u).trans ?_
    exact congrArg (fun c : SegThread => c.pc.awake) (setThread_of_ne hu)
  keep := by
    intro a b e' hne
    rw [inUse_released he]
    constructor
    · exact fun h => h.1
    · intro h
      refine ⟨h, ?_⟩
      rintro ⟨rfl, rfl⟩
      have heq := h.1.symm.trans he.1
      rw [some.inj heq] at hne
      exact hne ht

theorem Inv.released (h : Inv L s) (hpc : (s.thread t).pc = .unlocking k)
    (hnum : (s.thread t).segTableNum k = some i) (hidx : (s.thread t).segTableIndex k = some index)
    (he : s.OwnEntry t i index e) : Inv L (s.released t k i index e) := by
  have hun := h.unlocking hpc
  rcases he with ⟨he, _, _, ht⟩
  refine h.of_frame (frame_released he ht) ?_ ?_ ?_ ?_
  · intro a b b' e1 e2 he1 he2 hne _ _
    rw [inUse_released he] at he1 he2
    exact h.disjoint a b b' e1 e2 he1.1 he2.1 hne
  · intro a b e1 he1 ht1
    rw [inUse_released he] at he1
    rcases he1 with ⟨he1, hother⟩
    refine ⟨h.ordered a b e1 he1, ?_⟩
    rcases h.recorded a b e1 he1 with ⟨m, hact, hnum1, hidx1⟩
    rw [ht1, hpc] at hact
    rw [ht1] at hnum1 hidx1
    refine ⟨m, ?_, ?_, ?_⟩
    · rw [released_awake_self]
      change k + 1 ≤ m
      rcases lt_or_eq_of_le hact with hlt | rfl
      · exact hlt
      · rw [hnum] at hnum1
        rw [hidx] at hidx1
        exact absurd ⟨(some.inj hnum1).symm, (some.inj hidx1).symm⟩ hother
    · rw [released_ctx]
      exact hnum1
    · rw [released_ctx]
      exact hidx1
  · unfold ThreadInv
    rw [released_awake_self, released_ctx]
    refine hun.release hnum ?_
    rintro a b hne ⟨e1, he1, hf1, hl1, ht1⟩
    refine ⟨e1, (inUse_released he).mpr ⟨he1, fun hab => hne hab.1⟩, ?_, ?_, ht1⟩
    · rw [released_ctx]
      exact hf1
    · rw [released_ctx]
      exact hl1
  · intro u a b hw
    rcases broadcast_waiting hw with ⟨hne, hw'⟩
    have hu : u ≠ t := by
      rintro rfl
      rw [setThread_self] at hw'
      cases hw'
    rw [setThread_of_ne hu] at hw'
    rcases h.blocked u a b hw' with ⟨ha, j, e1, he1, hover, htid⟩
    refine ⟨ha, j, e1, (inUse_released he).mpr ⟨he1, fun hab => hne hab.1⟩, ?_, htid⟩
    rw [released_ctx]
    exact hover

end SegState

end Htx.Hxestorage
