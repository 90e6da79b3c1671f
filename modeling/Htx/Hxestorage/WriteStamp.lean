import Mathlib.Data.List.Count
import Htx.Library.EventSystem
import Htx.Hxestorage.StateTable
import Htx.Hxestorage.ValidationLoop

/-!
# Write stamps and the state table

With the state table enabled, `seg_lock` builds the write buffer after it has locked the
range: `bld_header` stamps every block with the status the table will have once the block
is written, provided `num_writes_remaining` says that a write is still to come.  After the
write, `update_state_table` goes over the blocks without a lock, four of them to a byte.
-/

namespace Htx.Hxestorage

open List Option Library EventSystem.ReachableUnder

/-- Where `update_state_table` is, at a block with `remaining` blocks behind it, or at the
head of its loop. -/
inductive TableUpdate where
  | getStatus (block remaining : Nat)
  | loadByte (block remaining status : Nat)
  | storeByte (block remaining status : Nat) (byte : UInt8)
  deriving DecidableEq

namespace TableUpdate

def block : TableUpdate -> Nat
  | .getStatus block _ | .loadByte block _ _ | .storeByte block _ _ _ => block

def size : TableUpdate -> Nat
  | .getStatus _ remaining => remaining
  | .loadByte _ remaining _ | .storeByte _ remaining _ _ => remaining + 1

def Covers (u : TableUpdate) (b : Nat) : Prop :=
  u.block ≤ b ∧ b < u.block + u.size

/-- The byte that has been read and not yet been written back. -/
def loadedByte : TableUpdate -> Option Int
  | .storeByte block _ _ _ => some (byteNum block)
  | _ => none

end TableUpdate

structure ActiveBody where
  region : Region
  flba : Nat
  numBlks : Nat
  wbuf : Nat -> Nat
  ops : List Oper
  failed : Bool
  update : Option TableUpdate

namespace ActiveBody

def Contains (a : ActiveBody) (b : Nat) : Prop :=
  a.flba ≤ b ∧ b < a.flba + a.numBlks

def Apart (a : ActiveBody) (flba numBlks : Nat) : Prop :=
  a.flba + a.numBlks ≤ flba ∨ flba + numBlks ≤ a.flba

instance (a : ActiveBody) (flba numBlks : Nat) : Decidable (a.Apart flba numBlks) :=
  inferInstanceAs (Decidable (_ ∨ _))

def advance (a : ActiveBody) (rest : List Oper) (ok : Bool) : ActiveBody :=
  { a with ops := if ok then rest else [], failed := a.failed || !ok }

end ActiveBody

structure StampThread where
  numWritesRemaining : Int
  pending : List Instr
  active : Option ActiveBody

def StampThread.loadedByte (th : StampThread) : Option Int :=
  th.active.bind fun a => a.update.bind TableUpdate.loadedByte

structure StampState where
  tbl : StatusTable
  disk : Nat -> Option Nat
  thread : Nat -> StampThread
  crashed : Bool

inductive StampEvent where
  | iterate (t : Nat) (access : Access)
  | count (t : Nat)
  | segLock (t flba numBlks : Nat)
  | oper (t blocks : Nat) (ok : Bool)
  | updateTable (t : Nat)
  | segUnlock (t : Nat)
  deriving DecidableEq

def afterFailure (region : Region) (pending : List Instr) : List Instr :=
  match region with
  | .writesLeft =>
    pending.dropWhile fun i =>
      match i with
      | .setRemaining _ => false
      | _ => true
  | _ => []

namespace StampState

variable (s : StampState)

def setThread (t : Nat) (th : StampThread) : StampState :=
  { s with thread := Function.update s.thread t th }

def setActive (t : Nat) (active : Option ActiveBody) : StampState :=
  s.setThread t { s.thread t with active := active }

def writeDisk (a : ActiveBody) (blocks : Nat) : StampState :=
  { s with
    disk := fun b =>
      if a.flba ≤ b ∧ b < a.flba + blocks then some (a.wbuf b) else s.disk b }

def discard (a : ActiveBody) : StampState :=
  { s with
    disk := fun b =>
      if a.flba ≤ b ∧ b < a.flba + a.numBlks then none else s.disk b }

def segLock (n : Nat) (t flba numBlks : Nat) : Option StampState :=
  let th := s.thread t
  match th.active, th.pending with
  | none, .body region ops :: rest =>
    if forall u, u < n -> u ≠ t -> forall a, (s.thread u).active = some a ->
        a.Apart flba numBlks then
      some (s.setThread t
        { th with
          pending := rest
          active := some
            { region := region, flba := flba, numBlks := numBlks,
              wbuf := bldHeaderStamp s.tbl th.numWritesRemaining,
              ops := ops, failed := false, update := none } })
    else none
  | _, _ => none

def oper (t blocks : Nat) (ok : Bool) : Option StampState :=
  match (s.thread t).active with
  | none => none
  | some a =>
    if a.update ≠ none then none
    else
      match a.ops with
      | [] => none
      | .write :: rest =>
        if blocks ≤ a.numBlks then
          some ((s.writeDisk a blocks).setActive t
            (some { a.advance rest ok with update := some (.getStatus a.flba blocks) }))
        else none
      | .discard :: rest =>
        some ((s.discard a).setActive t (some (a.advance rest ok)))
      | .null :: _ => some { s with crashed := true }
      | _ :: rest => some (s.setActive t (some (a.advance rest ok)))

def storeByte (block status : Nat) (byte : UInt8) : StampState :=
  { s with
    tbl := Function.update s.tbl (byteNum block)
      (UInt8.ofNat (cellSet byte.toNat (statusShift block) (nextStatus status))) }

/-- `get_write_status` loads the byte of a block, `set_write_status` loads it again, puts the
new status into it and stores it. -/
def updateTable (t : Nat) : Option StampState :=
  match (s.thread t).active with
  | none => none
  | some a =>
    match a.update with
    | none => none
    | some (.getStatus _ 0) => some (s.setActive t (some { a with update := none }))
    | some (.getStatus block (k + 1)) =>
      some (s.setActive t
        (some { a with update := some (.loadByte block k (getWriteStatus s.tbl block)) }))
    | some (.loadByte block k status) =>
      some (s.setActive t
        (some { a with update := some (.storeByte block k status (s.tbl (byteNum block))) }))
    | some (.storeByte block k status byte) =>
      some ((s.storeByte block status byte).setActive t
        (some { a with update := some (.getStatus (block + 1) k) }))

def segUnlock (t : Nat) : Option StampState :=
  let th := s.thread t
  match th.active with
  | some a =>
    if a.ops = [] ∧ a.update = none then
      some (s.setThread t
        { th with
          active := none
          pending := if a.failed then afterFailure a.region th.pending
            else th.pending })
    else none
  | none => none

def count (t : Nat) : Option StampState :=
  let th := s.thread t
  match th.active, th.pending with
  | none, .setRemaining k :: rest =>
    some (s.setThread t { th with numWritesRemaining := k, pending := rest })
  | none, .decRemaining :: rest =>
    some (s.setThread t
      { th with numWritesRemaining := th.numWritesRemaining - 1, pending := rest })
  | _, _ => none

def iterate (cfg : Nat -> LoopContext) (t : Nat) (access : Access) : Option StampState :=
  let th := s.thread t
  match th.active, th.pending with
  | none, [] => some (s.setThread t { th with pending := (cfg t).iteration access })
  | _, _ => none

def step (cfg : Nat -> LoopContext) (n : Nat) (s : StampState) (e : StampEvent) :
    Option StampState :=
  if s.crashed then none
  else
    match e with
    | .iterate t access => if t < n then s.iterate cfg t access else none
    | .count t => if t < n then s.count t else none
    | .segLock t flba numBlks => if t < n then s.segLock n t flba numBlks else none
    | .oper t blocks ok => if t < n then s.oper t blocks ok else none
    | .updateTable t => if t < n then s.updateTable t else none
    | .segUnlock t => if t < n then s.segUnlock t else none

def Initial : Prop :=
  (forall b, s.disk b = none) ∧ (forall t, s.thread t = ⟨0, [], none⟩) ∧ s.crashed = false

end StampState

open StampState

/-- A body that writes does so once, stamps the next status and stays within the table. -/
def StampThread.BodyReady (th : StampThread) (flba numBlks : Nat) : Prop :=
  match th.pending with
  | .body _ ops :: _ => .write ∈ ops ->
    ops.count .write = 1 ∧ 0 < th.numWritesRemaining ∧ flba + numBlks ≤ maxStatusBlock
  | _ => True

instance (th : StampThread) (flba numBlks : Nat) : Decidable (th.BodyReady flba numBlks) :=
  match th with
  | ⟨_, .body _ _ :: _, _⟩ => inferInstanceAs (Decidable (_ -> _))
  | ⟨_, [], _⟩ | ⟨_, .setRemaining _ :: _, _⟩ | ⟨_, .decRemaining :: _, _⟩ => isTrue trivial

/-- No thread writes back a byte that another one has loaded to write it back later. -/
def NoStaleByte (n : Nat) (s : StampState) (t : Nat) : Prop :=
  forall u, u < n -> u ≠ t -> (s.thread t).loadedByte ≠ none ->
    (s.thread u).loadedByte ≠ (s.thread t).loadedByte

instance (n : Nat) (s : StampState) (t : Nat) : Decidable (NoStaleByte n s t) :=
  inferInstanceAs (Decidable (forall u, u < n -> u ≠ t -> _ -> _))

def StampGuard (n : Nat) (s : StampState) : StampEvent -> Prop
  | .segLock t flba numBlks => (s.thread t).BodyReady flba numBlks
  | .updateTable t => NoStaleByte n s t
  | _ => True

instance (n : Nat) (s : StampState) : (e : StampEvent) -> Decidable (StampGuard n s e)
  | .segLock t flba numBlks => inferInstanceAs (Decidable ((s.thread t).BodyReady flba numBlks))
  | .updateTable t => inferInstanceAs (Decidable (NoStaleByte n s t))
  | .iterate _ _ | .count _ | .oper _ _ _ | .segUnlock _ => isTrue trivial

variable {cfg : Nat -> LoopContext}

namespace StampState

def Covered (s : StampState) (b : Nat) : Prop :=
  exists t a u, (s.thread t).active = some a ∧ a.update = some u ∧ u.Covers b

def Stamped (tbl : StatusTable) (a : ActiveBody) : Prop :=
  .write ∈ a.ops -> a.ops.count .write = 1 ∧ a.flba + a.numBlks ≤ maxStatusBlock ∧
      forall b, a.Contains b -> a.wbuf b = nextStatus (getWriteStatus tbl b)

/-- What `update_state_table` has read is still in the table. -/
def Loaded (tbl : StatusTable) : TableUpdate -> Prop
  | .getStatus _ _ => True
  | .loadByte block _ status => status = getWriteStatus tbl block
  | .storeByte block _ status byte =>
    status = getWriteStatus tbl block ∧ byte = tbl (byteNum block)

structure Updating (tbl : StatusTable) (disk : Nat -> Option Nat) (a : ActiveBody)
    (u : TableUpdate) : Prop where
  first : a.flba ≤ u.block
  last : u.block + u.size ≤ a.flba + a.numBlks
  inTable : a.flba + a.numBlks ≤ maxStatusBlock
  written : .write ∉ a.ops
  ahead : forall b stamp, u.Covers b -> disk b = some stamp ->
    stamp = nextStatus (getWriteStatus tbl b)
  loaded : Loaded tbl u

structure BodyInv (tbl : StatusTable) (disk : Nat -> Option Nat) (a : ActiveBody) : Prop where
  stamped : Stamped tbl a
  updating : forall u, a.update = some u -> Updating tbl disk a u

structure Inv (n : Nat) (s : StampState) : Prop where
  disk : forall b stamp, s.disk b = some stamp -> ¬ s.Covered b ->
    b < maxStatusBlock ∧ stamp = getWriteStatus s.tbl b
  body : forall t a, (s.thread t).active = some a -> BodyInv s.tbl s.disk a
  apart : forall t u a a', t ≠ u -> (s.thread t).active = some a ->
    (s.thread u).active = some a' -> a.Apart a'.flba a'.numBlks
  bounded : forall t a, (s.thread t).active = some a -> t < n

variable {s s' : StampState} {t n : Nat} {th : StampThread} {a : ActiveBody} {tbl : StatusTable}
  {disk disk' : Nat -> Option Nat} {rest : List Oper} {ok : Bool}

@[simp] theorem setThread_self : (s.setThread t th).thread t = th :=
  Function.update_self _ _ _

theorem setThread_of_ne {u : Nat} (hu : u ≠ t) : (s.setThread t th).thread u = s.thread u :=
  Function.update_of_ne hu _ _

theorem apart_comm {a' : ActiveBody} :
    a.Apart a'.flba a'.numBlks <-> a'.Apart a.flba a.numBlks := by
  unfold ActiveBody.Apart
  omega

/-- What a new state of one thread has to bring along. -/
theorem Inv.setThread (h : Inv n s) (hthread : s'.thread = s.thread)
    (hdisk : forall b stamp, s'.disk b = some stamp -> ¬ (s'.setThread t th).Covered b ->
      b < maxStatusBlock ∧ stamp = getWriteStatus s'.tbl b)
    (hself : forall a, th.active = some a -> t < n ∧ BodyInv s'.tbl s'.disk a ∧
      forall u c, u ≠ t -> (s.thread u).active = some c -> c.Apart a.flba a.numBlks)
    (hothers : forall u c, u ≠ t -> (s.thread u).active = some c -> BodyInv s'.tbl s'.disk c) :
    Inv n (s'.setThread t th) where
  disk := hdisk
  body := by
    intro u a ha
    by_cases hu : u = t
    · subst u
      rw [setThread_self] at ha
      exact (hself a ha).2.1
    · rw [setThread_of_ne hu, hthread] at ha
      exact hothers u a hu ha
  apart := by
    intro u v a a' huv ha ha'
    by_cases hu : u = t
    · subst u
      rw [setThread_self] at ha
      rw [setThread_of_ne (Ne.symm huv), hthread] at ha'
      exact apart_comm.mp ((hself a ha).2.2 v a' (Ne.symm huv) ha')
    · rw [setThread_of_ne hu, hthread] at ha
      by_cases hv : v = t
      · subst v
        rw [setThread_self] at ha'
        exact (hself a' ha').2.2 u a hu ha
      · rw [setThread_of_ne hv, hthread] at ha'
        exact h.apart u v a a' huv ha ha'
  bounded := by
    intro u a ha
    by_cases hu : u = t
    · subst u
      rw [setThread_self] at ha
      exact (hself a ha).1
    · rw [setThread_of_ne hu, hthread] at ha
      exact h.bounded u a ha

/-- A block that a step leaves uncovered has been covered by nobody, or by the thread that
takes the step. -/
theorem not_covered_of_setThread {b : Nat} (hthread : s'.thread = s.thread)
    (h : ¬ (s'.setThread t th).Covered b)
    (hself : forall a u, (s.thread t).active = some a -> a.update = some u -> ¬ u.Covers b) :
    ¬ s.Covered b := by
  rintro ⟨v, a, u, ha, hu, hb⟩
  by_cases hv : v = t
  · exact hself a u (hv ▸ ha) hu hb
  · exact h ⟨v, a, u, by rw [setThread_of_ne hv, hthread]; exact ha, hu, hb⟩

theorem Inv.setThread_inactive (h : Inv n s) (hth : th.active = none)
    (hidle : forall a u, (s.thread t).active = some a -> a.update = some u -> False) :
    Inv n (s.setThread t th) := by
  refine h.setThread rfl (fun b stamp hb hfree => ?_) (fun a ha => ?_) fun u c _ => h.body u c
  · exact h.disk b stamp hb (not_covered_of_setThread rfl hfree fun a u ha hu =>
      (hidle a u ha hu).elim)
  · rw [hth] at ha
    cases ha

theorem Inv.setActive {a' : ActiveBody} (h : Inv n s) (ha : (s.thread t).active = some a)
    (hflba : a'.flba = a.flba) (hnum : a'.numBlks = a.numBlks) (hthread : s'.thread = s.thread)
    (hdisk : forall b stamp, s'.disk b = some stamp -> ¬ (s'.setActive t (some a')).Covered b ->
      b < maxStatusBlock ∧ stamp = getWriteStatus s'.tbl b) (hself : BodyInv s'.tbl s'.disk a')
    (hothers : forall u c, u ≠ t -> (s.thread u).active = some c -> BodyInv s'.tbl s'.disk c) :
    Inv n (s'.setActive t (some a')) := by
  refine h.setThread hthread hdisk ?_ hothers
  rintro c ⟨⟩
  refine ⟨h.bounded t a ha, hself, fun u c hu hc => ?_⟩
  rw [hflba, hnum]
  exact h.apart u t c a hu hc ha

/-!
# Every step keeps the invariant
-/

theorem Inv.segLock {flba numBlks : Nat} (h : Inv n s) (ht : t < n)
    (hready : (s.thread t).BodyReady flba numBlks)
    (hst : s.segLock n t flba numBlks = some s') : Inv n s' := by
  simp only [StampState.segLock] at hst
  split at hst
  · rename_i region ops rest hactive hpending
    obtain ⟨hfree, ⟨⟩⟩ := ite_none_right_eq_some.mp hst
    rw [StampThread.BodyReady, hpending] at hready
    refine h.setThread rfl (fun b stamp hb huncovered => ?_) ?_ fun u c _ => h.body u c
    · refine h.disk b stamp hb (not_covered_of_setThread rfl huncovered fun a u ha => ?_)
      rw [hactive] at ha
      cases ha
    · rintro a ⟨⟩
      refine ⟨ht, ⟨?_, nofun⟩, fun u c hu hc => hfree u (h.bounded u c hc) hu c hc⟩
      intro hw
      rcases hready hw with ⟨hcount, hpos, hrange⟩
      refine ⟨hcount, hrange, ?_⟩
      intro b _
      exact if_pos hpos
  · cases hst

theorem not_write_of_once (hops : a.ops = .write :: rest) (hcount : a.ops.count .write = 1) :
    .write ∉ (a.advance rest ok).ops := by
  have hnone : .write ∉ rest := by
    rw [hops, count_cons_self] at hcount
    exact count_eq_zero.mp (by omega)
  cases ok with
  | true => exact hnone
  | false => exact not_mem_nil

theorem stamped_advance {op : Oper} (hops : a.ops = op :: rest) (hop : op ≠ .write)
    (h : Stamped tbl a) : Stamped tbl (a.advance rest ok) := by
  intro hw
  cases ok with
  | false => cases hw
  | true =>
    have hw' : .write ∈ rest := hw
    rcases h (by rw [hops]; exact mem_cons_of_mem _ hw') with ⟨hcount, hrange, hbuf⟩
    rw [hops, count_cons_of_ne hop] at hcount
    exact ⟨hcount, hrange, hbuf⟩

/-- What other threads do to blocks outside of a body. -/
theorem BodyInv.of_disk {c : ActiveBody} (h : BodyInv tbl disk c)
    (hdisk : forall b stamp, c.Contains b -> disk' b = some stamp -> disk b = some stamp) :
    BodyInv tbl disk' c := by
  refine ⟨h.stamped, fun u hu => ?_⟩
  obtain ⟨hfirst, hlast, hmax, hwritten, hahead, hloaded⟩ := h.updating u hu
  refine ⟨hfirst, hlast, hmax, hwritten, fun b stamp hb hstamp => ?_, hloaded⟩
  have hin : c.Contains b := ⟨hfirst.trans hb.1, hb.2.trans_le hlast⟩
  exact hahead b stamp hb (hdisk b stamp hin hstamp)

theorem BodyInv.setWriteStatus {c : ActiveBody} {block value : Nat} (h : BodyInv tbl disk c)
    (hvalue : value < 4) (hblock : block < maxStatusBlock) (hout : ¬ c.Contains block)
    (hbyte : forall u, c.update = some u -> u.loadedByte ≠ some (byteNum block)) :
    BodyInv (Hxestorage.setWriteStatus tbl block value) disk c := by
  have hsame : c.flba + c.numBlks ≤ maxStatusBlock -> forall b, c.Contains b ->
      getWriteStatus (Hxestorage.setWriteStatus tbl block value) b = getWriteStatus tbl b := by
    intro hmax b hb
    rw [getWriteStatus_setWriteStatus hvalue hblock (hb.2.trans_le hmax), if_neg]
    rintro rfl
    exact hout hb
  refine ⟨fun hw => ?_, fun u hu => ?_⟩
  · obtain ⟨hcount, hrange, hbuf⟩ := h.stamped hw
    exact ⟨hcount, hrange, fun b hb => by rw [hsame hrange b hb, hbuf b hb]⟩
  · obtain ⟨hfirst, hlast, hmax, hwritten, hahead, hloaded⟩ := h.updating u hu
    have hin : forall b, u.Covers b -> c.Contains b :=
      fun b hb => ⟨hfirst.trans hb.1, hb.2.trans_le hlast⟩
    refine ⟨hfirst, hlast, hmax, hwritten, fun b stamp hb hstamp => ?_, ?_⟩
    · rw [hsame hmax b (hin b hb)]
      exact hahead b stamp hb hstamp
    · have hbyte' := hbyte u hu
      cases u with
      | getStatus block' k => trivial
      | loadByte block' k status =>
        exact hloaded.trans (hsame hmax block' (hin block' ⟨le_refl _, Nat.lt_add_of_pos_right
          (Nat.succ_pos _)⟩)).symm
      | storeByte block' k status byte =>
        refine ⟨hloaded.1.trans (hsame hmax block' (hin block' ⟨le_refl _,
          Nat.lt_add_of_pos_right (Nat.succ_pos _)⟩)).symm, hloaded.2.trans ?_⟩
        exact (Function.update_of_ne (fun heq => hbyte' (congrArg some heq)) _ _).symm

theorem disk_writeDisk (blocks b : Nat) : (s.writeDisk a blocks).disk b =
    if a.flba ≤ b ∧ b < a.flba + blocks then some (a.wbuf b) else s.disk b :=
  rfl

theorem not_contains_of_apart {c : ActiveBody} {b : Nat} (hapart : c.Apart a.flba a.numBlks)
    (hb : a.Contains b) : ¬ c.Contains b := by
  unfold ActiveBody.Apart at hapart
  unfold ActiveBody.Contains at hb ⊢
  omega

section

variable (h : Inv n s)

include h

section

variable (ha : (s.thread t).active = some a)

include ha

section

variable (hidle : a.update = none)

include hidle

theorem Inv.disk_of_idle {th : StampThread} {b stamp : Nat} (hthread : s'.thread = s.thread)
    (hfree : ¬ (s'.setThread t th).Covered b) (hb : s.disk b = some stamp) :
    b < maxStatusBlock ∧ stamp = getWriteStatus s.tbl b := by
  refine h.disk b stamp hb (not_covered_of_setThread hthread hfree fun c u hc hu => ?_)
  rw [ha] at hc
  cases hc
  rw [hidle] at hu
  cases hu

theorem Inv.write {blocks : Nat} (hops : a.ops = .write :: rest) (hblocks : blocks ≤ a.numBlks) :
    Inv n ((s.writeDisk a blocks).setActive t
      (some { a.advance rest ok with update := some (.getStatus a.flba blocks) })) := by
  obtain ⟨hcount, hrange, hbuf⟩ := (h.body t a ha).stamped (by rw [hops]; exact mem_cons_self)
  have hwritten : .write ∉ (a.advance rest ok).ops := not_write_of_once hops hcount
  refine h.setActive ha rfl rfl rfl ?_ ⟨fun hw => absurd hw hwritten, ?_⟩ ?_
  · intro b stamp hb hfree
    have hout : ¬ (a.flba ≤ b ∧ b < a.flba + blocks) := by
      intro hin
      exact hfree ⟨t, _, _, congrArg StampThread.active setThread_self, rfl, hin⟩
    rw [disk_writeDisk, if_neg hout] at hb
    exact h.disk_of_idle ha hidle rfl hfree hb
  · rintro u ⟨⟩
    refine ⟨le_refl _, Nat.add_le_add_left hblocks _, hrange, hwritten, ?_, trivial⟩
    intro b stamp hb hstamp
    have hin : a.flba ≤ b ∧ b < a.flba + blocks := hb
    rw [disk_writeDisk, if_pos hin] at hstamp
    rw [← Option.some.inj hstamp]
    exact hbuf b ⟨hin.1, by omega⟩
  · intro u c hu hc
    refine (h.body u c hc).of_disk fun b stamp hin hb => ?_
    have hapart := h.apart u t c a hu hc ha
    rwa [disk_writeDisk, if_neg] at hb
    exact fun hb' => not_contains_of_apart hapart ⟨hb'.1, by omega⟩ hin

theorem Inv.discard (hops : a.ops = .discard :: rest) :
    Inv n ((s.discard a).setActive t (some (a.advance rest ok))) := by
  have hkept : forall b stamp, (s.discard a).disk b = some stamp -> s.disk b = some stamp := by
    intro b stamp hb
    unfold StampState.discard at hb
    simp only at hb
    split at hb
    · cases hb
    · exact hb
  refine h.setActive ha rfl rfl rfl (fun b stamp hb hfree => ?_)
    ⟨stamped_advance hops (by decide) (h.body t a ha).stamped, fun u hu => ?_⟩
    (fun u c _ hc => (h.body u c hc).of_disk fun b stamp _ hb => hkept b stamp hb)
  · exact h.disk_of_idle ha hidle rfl hfree (hkept b stamp hb)
  · rw [show (a.advance rest ok).update = none from hidle] at hu
    cases hu

theorem Inv.passive {op : Oper} (hops : a.ops = op :: rest) (hop : op ≠ .write) :
    Inv n (s.setActive t (some (a.advance rest ok))) := by
  refine h.setActive ha rfl rfl rfl (fun b stamp hb hfree => h.disk_of_idle ha hidle rfl hfree hb)
    ⟨stamped_advance hops hop (h.body t a ha).stamped, fun u hu => ?_⟩ fun u c _ => h.body u c
  rw [show (a.advance rest ok).update = none from hidle] at hu
  cases hu

end

/-- A step of `update_state_table` that leaves the table and the blocks it covers alone. -/
theorem Inv.reads {u u' : TableUpdate} (hu : a.update = some u) (hblock : u'.block = u.block)
    (hsize : u'.size = u.size) (hloaded : Loaded s.tbl u') :
    Inv n (s.setActive t (some { a with update := some u' })) := by
  have hcovers : forall b, u'.Covers b <-> u.Covers b := by
    intro b
    rw [TableUpdate.Covers, TableUpdate.Covers, hblock, hsize]
  obtain ⟨hfirst, hlast, hmax, hwritten, hahead, -⟩ := (h.body t a ha).updating u hu
  refine h.setActive ha rfl rfl rfl (fun b stamp hb hfree => ?_) ⟨(h.body t a ha).stamped, ?_⟩
    fun v c _ => h.body v c
  · refine h.disk b stamp hb (not_covered_of_setThread rfl hfree fun c w hc hw hb => hfree ?_)
    rw [ha] at hc
    cases hc
    rw [hu] at hw
    cases hw
    exact ⟨t, _, u', congrArg StampThread.active setThread_self, rfl, (hcovers b).mpr hb⟩
  · rintro w ⟨⟩
    exact ⟨hblock ▸ hfirst, by rwa [hblock, hsize], hmax, hwritten,
      fun b stamp hb => hahead b stamp ((hcovers b).mp hb), hloaded⟩

theorem Inv.updated {block : Nat} (hu : a.update = some (.getStatus block 0)) :
    Inv n (s.setActive t (some { a with update := none })) := by
  refine h.setActive ha rfl rfl rfl (fun b stamp hb hfree => ?_)
    ⟨(h.body t a ha).stamped, nofun⟩ fun v c _ => h.body v c
  refine h.disk b stamp hb (not_covered_of_setThread rfl hfree fun c w hc hw hin => ?_)
  rw [ha] at hc
  cases hc
  rw [hu] at hw
  cases hw
  exact absurd hin.2 (Nat.not_lt.mpr hin.1)

theorem Inv.stores {block k status : Nat} {byte : UInt8} (hguard : NoStaleByte n s t)
    (hu : a.update = some (.storeByte block k status byte)) :
    Inv n ((s.storeByte block status byte).setActive t
      (some { a with update := some (.getStatus (block + 1) k) })) := by
  obtain ⟨hfirst, hlast, hmax, hwritten, hahead, hstatus, hbyte⟩ := (h.body t a ha).updating _ hu
  have hfirst : a.flba ≤ block := hfirst
  have hlast : block + (k + 1) ≤ a.flba + a.numBlks := hlast
  have hin : a.Contains block := ⟨hfirst, by omega⟩
  have hblock : block < maxStatusBlock := by omega
  -- the byte is still what it was when it was loaded
  have hstore : s.storeByte block status byte =
      { s with tbl := setWriteStatus s.tbl block (nextStatus status) } := by
    rw [hbyte]
    rfl
  rw [hstore]
  have hnext := nextStatus_lt status
  have hother : forall b, b < maxStatusBlock -> b ≠ block ->
      getWriteStatus (setWriteStatus s.tbl block (nextStatus status)) b =
        getWriteStatus s.tbl b := by
    intro b hb hne
    rw [getWriteStatus_setWriteStatus hnext hblock hb, if_neg hne]
  refine h.setActive ha rfl rfl rfl (fun b stamp hb hfree => ?_)
    ⟨fun hw => absurd hw hwritten, ?_⟩ fun v c hv hc => ?_
  · by_cases heq : b = block
    · subst heq
      refine ⟨hblock, ?_⟩
      rw [getWriteStatus_setWriteStatus hnext hblock hblock, if_pos rfl, hstatus]
      exact hahead b stamp ⟨le_refl _, Nat.lt_add_of_pos_right (Nat.succ_pos _)⟩ hb
    · have hold := h.disk b stamp hb (not_covered_of_setThread rfl hfree ?_)
      · rw [hother b hold.1 heq]
        exact hold
      · intro c w hc hw hcovers
        rw [ha] at hc
        cases hc
        rw [hu] at hw
        cases hw
        have hcovers : block ≤ b ∧ b < block + (k + 1) := hcovers
        exact hfree ⟨t, _, _, congrArg StampThread.active setThread_self, rfl,
          show block + 1 ≤ b ∧ b < block + 1 + k by omega⟩
  · rintro w ⟨⟩
    refine ⟨Nat.le_succ_of_le hfirst, show block + 1 + k ≤ a.flba + a.numBlks by omega, hmax,
      hwritten, ?_, trivial⟩
    intro b stamp hb hstamp
    have hb : block + 1 ≤ b ∧ b < block + 1 + k := hb
    have hmax : b < maxStatusBlock := by
      omega
    rw [hother b hmax (by omega)]
    exact hahead b stamp (show block ≤ b ∧ b < block + (k + 1) by omega) hstamp
  · have hout := not_contains_of_apart (h.apart v t c a hv hc ha) hin
    have hfresh : forall w, c.update = some w -> w.loadedByte ≠ some (byteNum block) := by
      intro w hw hloaded
      have hmine : (s.thread t).loadedByte = some (byteNum block) := by
        simp [StampThread.loadedByte, ha, hu, TableUpdate.loadedByte]
      have htheirs : (s.thread v).loadedByte = some (byteNum block) := by
        simp [StampThread.loadedByte, hc, hw, hloaded]
      exact hguard v (h.bounded v c hc) hv (by simp [hmine]) (htheirs.trans hmine.symm)
    have hbody := (h.body v c hc).setWriteStatus hnext hblock hout hfresh
    exact hbody

end

theorem Inv.oper {blocks : Nat} (hst : s.oper t blocks ok = some s') : Inv n s' := by
  unfold StampState.oper at hst
  cases ha : (s.thread t).active with
  | none => simp [ha] at hst
  | some a =>
    simp only [ha] at hst
    obtain ⟨hidle, hst⟩ := ite_none_left_eq_some.mp hst
    have hidle : a.update = none := not_not.mp hidle
    cases hops : a.ops with
    | nil => simp [hops] at hst
    | cons op rest =>
      simp only [hops] at hst
      cases op with
      | write =>
        simp only at hst
        split at hst
        · rename_i hblocks
          cases hst
          exact h.write ha hidle hops hblocks
        · cases hst
      | discard =>
        cases hst
        exact h.discard ha hidle hops
      | null =>
        cases hst
        exact ⟨h.disk, h.body, h.apart, h.bounded⟩
      | read | compare =>
        cases hst
        exact h.passive ha hidle hops (by decide)

theorem Inv.updateTable (hguard : NoStaleByte n s t) (hst : s.updateTable t = some s') :
    Inv n s' := by
  unfold StampState.updateTable at hst
  cases ha : (s.thread t).active with
  | none => simp [ha] at hst
  | some a =>
    simp only [ha] at hst
    split at hst
    · cases hst
    · rename_i hu
      cases hst
      exact h.updated ha hu
    · rename_i hu
      cases hst
      exact h.reads ha hu rfl rfl rfl
    · rename_i hu
      cases hst
      exact h.reads ha hu rfl rfl ⟨((h.body t a ha).updating _ hu).loaded, rfl⟩
    · rename_i hu
      cases hst
      exact h.stores ha hguard hu

theorem Inv.step {e : StampEvent} (hguard : StampGuard n s e)
    (hst : s.step cfg n e = some s') : Inv n s' := by
  obtain ⟨-, hst⟩ := ite_none_left_eq_some.mp hst
  have hnone : forall t a u, (s.thread t).active = none -> (s.thread t).active = some a ->
      a.update = some u -> False := by
    intro t a u hnone ha
    rw [hnone] at ha
    cases ha
  cases e with
  | iterate t access =>
    obtain ⟨-, hst⟩ := ite_none_right_eq_some.mp hst
    simp only [iterate] at hst
    split at hst
    · rename_i hactive _
      cases hst
      exact h.setThread_inactive hactive fun a u => hnone t a u hactive
    · cases hst
  | count t =>
    obtain ⟨-, hst⟩ := ite_none_right_eq_some.mp hst
    simp only [count] at hst
    split at hst
    · rename_i hactive _
      cases hst
      exact h.setThread_inactive hactive fun a u => hnone t a u hactive
    · rename_i hactive _
      cases hst
      exact h.setThread_inactive hactive fun a u => hnone t a u hactive
    · cases hst
  | segLock t flba numBlks =>
    obtain ⟨ht, hst⟩ := ite_none_right_eq_some.mp hst
    exact h.segLock ht hguard hst
  | oper t blocks ok =>
    obtain ⟨-, hst⟩ := ite_none_right_eq_some.mp hst
    exact h.oper hst
  | updateTable t =>
    obtain ⟨-, hst⟩ := ite_none_right_eq_some.mp hst
    exact h.updateTable hguard hst
  | segUnlock t =>
    obtain ⟨-, hst⟩ := ite_none_right_eq_some.mp hst
    simp only [segUnlock] at hst
    split at hst
    · rename_i a ha
      obtain ⟨⟨-, hidle⟩, ⟨⟩⟩ := ite_none_right_eq_some.mp hst
      refine h.setThread_inactive rfl fun c u hc hu => ?_
      rw [ha] at hc
      cases hc
      rw [hidle] at hu
      cases hu
    · cases hst

end

theorem Initial.inv (h : Initial s) : Inv n s := by
  rcases h with ⟨hdisk, hthread, _⟩
  have hactive : forall t, (s.thread t).active = none := by
    intro t
    rw [hthread t]
  refine ⟨?_, ?_, ?_, ?_⟩
  · intro b stamp hb
    rw [hdisk b] at hb
    cases hb
  · intro t a ha
    rw [hactive t] at ha
    cases ha
  · intro t u a a' _ ha
    rw [hactive t] at ha
    cases ha
  · intro t a ha
    rw [hactive t] at ha
    cases ha

end StampState

/-!
# Stamps and statuses
-/

def StampState.start : StampState where
  tbl := fun _ => 0
  disk := fun _ => none
  thread := fun _ => ⟨0, [], none⟩
  crashed := false

theorem StampState.initial_start : start.Initial :=
  ⟨fun _ => rfl, fun _ => rfl, rfl⟩

end Htx.Hxestorage
