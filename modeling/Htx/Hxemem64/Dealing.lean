import Htx.Library.Shares
import Htx.Hxemem64.SegmentOwners

/-!
# Dealing to the threads of a chip

Which entry of which thread is offered which segment does not depend on the owners: the
dealing goes through a list of segments for each thread that is known in advance.
-/

namespace Htx.Hxemem64

open List Library

def giveList (th : Nat) : Nat -> List SegId -> Owners -> Owners
  | _, [], w => w
  | j, id :: rest, w => giveList th (j + 1) rest (w.give th j id)

theorem giveList_append (th j : Nat) (ids rest : List SegId) (w : Owners) :
    giveList th j (ids ++ rest) w = giveList th (j + ids.length) rest (giveList th j ids w) := by
  induction ids generalizing j w with
  | nil => rfl
  | cons id ids ih =>
    simp only [cons_append, giveList, ih, length_cons]
    congr 1
    omega

def pageIds (pool : Pool) (page track count : Nat) : List SegId :=
  (range count).map fun i => ⟨pool, page, i + track⟩

section

variable (pool : Pool) (inUse : Nat -> Nat) (n : Nat)

def segsOf (t : Nat) : List SegId :=
  (range maxPageSizes).flatMap fun page =>
    pageIds pool page (sharesBefore (inUse page) n t) (share (inUse page) n t)

theorem dealSegs_eq (th page track numSegs : Nat) {left seg j : Nat}
    (h : j + left ≤ numSegs) (w : Owners) :
    dealSegs pool th page track numSegs left seg j w = (j + left, giveList th j
        ((range' seg left).map fun i => ⟨pool, page, i + track⟩) w) := by
  induction left generalizing seg j w with
  | zero => rfl
  | succ left ih =>
    have hj : j < numSegs := by omega
    rw [dealSegs, if_pos hj, ih (by omega), range'_succ, map_cons, giveList]
    congr 1
    omega

theorem dealPages_eq (th : Nat) (counts : Nat -> Nat) {pages : List Nat}
    (hnodup : pages.Nodup) {j : Nat}
    (hj : j + (pages.map counts).sum ≤ totalSegs counts) (track : Nat -> Nat)
    (hskip : forall page, page ∈ pages ->
      ¬ (inUse page > 0 ∧ track page < inUse page) -> counts page = 0) (w : Owners) :
    dealPages pool inUse th counts pages j track w =
      (fun page => if page ∈ pages then track page + counts page else track page, giveList th j
          (pages.flatMap fun page => pageIds pool page (track page) (counts page)) w) := by
  induction pages generalizing j track w with
  | nil => simp [dealPages, giveList]
  | cons page rest ih =>
    rw [nodup_cons] at hnodup
    rw [map_cons, sum_cons] at hj
    have hne : forall other, other ∈ rest -> other ≠ page :=
      fun other hother h => hnodup.1 (h ▸ hother)
    by_cases hcond : inUse page > 0 ∧ track page < inUse page
    · have htrack : forall other, other ∈ rest ->
          Function.update track page (track page + counts page) other = track other :=
        fun other hother => Function.update_of_ne (hne other hother) _ _
      rw [dealPages, if_pos hcond, dealSegs_eq pool th page (track page) _ (by omega),
        ← range_eq_range']
      simp only []
      rw [ih hnodup.2 (by omega)]
      · refine Prod.ext (funext fun other => ?_) ?_
        · by_cases hother : other = page
          · subst hother
            simp [hnodup.1]
          · simp [hother]
        · rw [flatMap_cons, giveList_append]
          simp only [pageIds, length_map, length_range]
          congr 1
          refine flatMap_congr fun other hother => ?_
          rw [htrack other hother]
      · intro other hother
        rw [htrack other hother]
        exact hskip other (mem_cons_of_mem page hother)
    · have hzero := hskip page (mem_cons_self ..) hcond
      rw [dealPages, if_neg hcond, ih hnodup.2 (by omega) track
        fun other hother => hskip other (mem_cons_of_mem page hother)]
      refine Prod.ext (funext fun other => ?_) ?_
      · by_cases hother : other = page
        · subst hother
          simp [hnodup.1, hzero]
        · simp [hother]
      · simp [pageIds, hzero]

theorem length_segsOf (t : Nat) :
    (segsOf pool inUse n t).length = totalSegs fun page => share (inUse page) n t := by
  simp [segsOf, totalSegs, pageIds, length_flatMap]

theorem numSegsPerThread_eq {t : Nat} {remSegs : Nat -> Int} (h : forall page, inUse page > 0 ->
      remSegs page = ((inUse page % n : Nat) : Int) - (t : Int)) :
    numSegsPerThread inUse n remSegs = fun page => share (inUse page) n t := by
  funext page
  by_cases hpos : inUse page > 0
  · have havg : avgSegsPerThread inUse n page = inUse page / n := by
      unfold avgSegsPerThread
      split
      · rfl
      · rw [Nat.div_eq_of_lt (by omega)]
    have hrem : remSegs page > 0 ↔ t < inUse page % n := by
      rw [h page hpos]
      omega
    simp only [numSegsPerThread, if_pos hpos, havg, share, hrem]
  · have hzero : inUse page = 0 := by omega
    simp [numSegsPerThread, share, hzero]

theorem countSegs_eq {t left : Nat} {remSegs : Nat -> Int} (h : forall page, inUse page > 0 ->
      remSegs page = ((inUse page % n : Nat) : Int) - (t : Int)) :
    countSegs inUse n left remSegs =
      (range' t left).map fun t page => share (inUse page) n t := by
  induction left generalizing t remSegs with
  | zero => rfl
  | succ left ih =>
    have hnext : forall page, inUse page > 0 -> decrementRemSegs inUse remSegs page =
        ((inUse page % n : Nat) : Int) - ((t + 1 : Nat) : Int) := by
      intro page hpos
      rw [decrementRemSegs, if_pos hpos, h page hpos]
      omega
    rw [countSegs, numSegsPerThread_eq inUse n h, ih hnext, range'_succ, map_cons]

def giveThreads (start : Nat) (ts : List Nat) (w : Owners) : Owners :=
  ts.foldl (fun w t => giveList (start + t) 0 (segsOf pool inUse n t) w) w

theorem dealThreads_eq (start : Nat) {t left : Nat} (h : t + left ≤ n) {track : Nat -> Nat}
    (htrack : forall page, page < maxPageSizes ->
      track page = sharesBefore (inUse page) n t) (w : Owners) :
    dealThreads pool inUse (start + t)
        ((range' t left).map fun t page => share (inUse page) n t) track w =
      giveThreads pool inUse n start (range' t left) w := by
  induction left generalizing t track w with
  | zero => rfl
  | succ left ih =>
    rw [range'_succ, map_cons, dealThreads]
    change _ = giveThreads pool inUse n start (range' (t + 1) left)
      (giveList (start + t) 0 (segsOf pool inUse n t) w)
    by_cases hzero : totalSegs (fun page => share (inUse page) n t) = 0
    · have hnil : segsOf pool inUse n t = [] :=
        eq_nil_of_length_eq_zero ((length_segsOf pool inUse n t).trans hzero)
      rw [if_pos hzero, hnil]
      refine ih (t := t + 1) (by omega) (fun page hpage => ?_) _
      have hshare : share (inUse page) n t = 0 := by
        refine sum_eq_zero_iff.mp hzero _ (mem_map.mpr ⟨page, ?_, rfl⟩)
        exact mem_range.mpr hpage
      rw [htrack page hpage, sharesBefore_succ, hshare, add_zero]
    · have hskip : forall page, page ∈ range maxPageSizes ->
          ¬ (inUse page > 0 ∧ track page < inUse page) -> share (inUse page) n t = 0 := by
        intro page hpage hcond
        rw [htrack page (mem_range.mp hpage)] at hcond
        have hnext := sharesBefore_mono (inUse page) n (show t + 1 ≤ n by omega)
        rw [sharesBefore_succ, sharesBefore_self (by omega)] at hnext
        by_cases hpos : inUse page > 0
        · have hge := fun h => hcond ⟨hpos, h⟩
          omega
        · simp [share, Nat.eq_zero_of_not_pos hpos]
      rw [if_neg hzero, dealPages_eq pool inUse (start + t) _ nodup_range
        (by rw [zero_add]; exact le_rfl) track hskip]
      have hlist : ((range maxPageSizes).flatMap fun page =>
          pageIds pool page (track page) (share (inUse page) n t)) =
          segsOf pool inUse n t := by
        refine flatMap_congr fun page hpage => ?_
        rw [htrack page (mem_range.mp hpage)]
      rw [hlist]
      refine ih (t := t + 1) (by omega) (fun page hpage => ?_) _
      rw [if_pos (mem_range.mpr hpage), htrack page hpage, sharesBefore_succ]

theorem fillThreads_eq (start : Nat) (w : Owners) : fillThreads pool inUse n start w =
      giveThreads pool inUse n start (range n)
        (setCounts start ((range n).map fun t page => share (inUse page) n t) w) := by
  have hcounts : countSegs inUse n n (fun page => ((inUse page % n : Nat) : Int)) =
      (range n).map fun t page => share (inUse page) n t := by
    rw [range_eq_range']
    exact countSegs_eq inUse n fun page _ => by simp
  rw [fillThreads, hcounts, range_eq_range']
  exact dealThreads_eq pool inUse n start (zero_add n).le (fun page _ => by simp) _

/-!
## The lists of a chip
-/

theorem mem_segsOf {t : Nat} {id : SegId} :
    id ∈ segsOf pool inUse n t ↔ id.pool = pool ∧ id.page < maxPageSizes ∧
      exists i, i < share (inUse id.page) n t ∧
        id.index = sharesBefore (inUse id.page) n t + i := by
  rcases id with ⟨pool', page, index⟩
  simp only [segsOf, pageIds, mem_flatMap, mem_map, mem_range, SegId.mk.injEq]
  constructor
  · rintro ⟨page', hpage, i, hi, rfl, rfl, rfl⟩
    exact ⟨rfl, hpage, i, hi, add_comm _ _⟩
  · rintro ⟨rfl, hpage, i, hi, rfl⟩
    exact ⟨page, hpage, i, hi, rfl, rfl, add_comm _ _⟩

theorem nodup_segsOf (t : Nat) : (segsOf pool inUse n t).Nodup := by
  refine nodup_flatMap.mpr ⟨fun page _ => ?_, ?_⟩
  · refine Nodup.map (fun i i' h => ?_) nodup_range
    simpa using h
  · refine nodup_range.imp ?_
    intro page page' hne id hid hid'
    simp only [pageIds, mem_map] at hid hid'
    rcases hid with ⟨i, _, rfl⟩
    rcases hid' with ⟨i', _, h⟩
    exact hne (SegId.mk.inj h).2.1.symm

theorem exists_mem_segsOf (hn : 0 < n) (id : SegId) :
    (exists t, t < n ∧ id ∈ segsOf pool inUse n t) ↔
      id.pool = pool ∧ id.page < maxPageSizes ∧ id.index < inUse id.page := by
  simp only [mem_segsOf]
  constructor
  · rintro ⟨t, ht, hpool, hpage, i, hi, hindex⟩
    exact ⟨hpool, hpage, hindex ▸ sharesBefore_add_lt ht hi⟩
  · rintro ⟨hpool, hpage, hindex⟩
    rcases exists_share hn hindex with ⟨t, i, ht, hi, heq⟩
    exact ⟨t, ht, hpool, hpage, i, hi, heq⟩

theorem segsOf_disjoint {t t' : Nat} (hne : t ≠ t') :
    Disjoint (segsOf pool inUse n t) (segsOf pool inUse n t') := by
  intro id hid hid'
  rcases (mem_segsOf pool inUse n).mp hid with ⟨_, _, i, hi, heq⟩
  rcases (mem_segsOf pool inUse n).mp hid' with ⟨_, _, i', hi', heq'⟩
  exact hne (sharesBefore_add_inj hi hi' (heq.symm.trans heq')).1

end

/-!
## Filled entries
-/

structure Given (th j : Nat) (ids : List SegId) (w w' : Owners) : Prop where
  seg : forall id, w'.seg id = if id ∈ ids then ⟨toOwningThread th, true⟩ else w.seg id
  other : forall t, t ≠ th -> w'.thread t = w.thread t
  numSegs : (w'.thread th).numSegs = (w.thread th).numSegs
  before : forall k, k < j -> (w'.thread th).segDetails k = (w.thread th).segDetails k
  entry : forall k, k < ids.length -> (w'.thread th).segDetails (j + k) = ids[k]?

variable {w : Owners}

theorem given_giveList (th j : Nat) {ids : List SegId} (hnodup : ids.Nodup)
    (hfree : forall id, id ∈ ids -> (w.seg id).owningThread = -1) :
    Given th j ids w (giveList th j ids w) := by
  induction ids generalizing j w with
  | nil => exact ⟨fun _ => rfl, fun _ _ => rfl, rfl, fun _ _ => rfl, fun k hk => by simp at hk⟩
  | cons id rest ih =>
    rw [nodup_cons] at hnodup
    have hgive : w.give th j id = w.take th j id := by
      simp [Owners.give, hfree id (mem_cons_self ..)]
    have hrest : forall id', id' ∈ rest -> ((w.take th j id).seg id').owningThread = -1 := by
      intro id' hid'
      have hne : id' ≠ id := fun h => hnodup.1 (h ▸ hid')
      simpa [Owners.take, hne] using hfree id' (mem_cons_of_mem id hid')
    have hgiven := ih (j + 1) hnodup.2 hrest
    rw [giveList, hgive]
    refine ⟨fun id' => ?_, fun t ht => ?_, ?_, fun k hk => ?_, fun k hk => ?_⟩
    · rw [hgiven.seg]
      by_cases hid : id' = id
      · subst hid
        simp [hnodup.1, Owners.take]
      · simp [hid, Owners.take]
    · rw [hgiven.other t ht]
      simp [Owners.take, ht]
    · rw [hgiven.numSegs]
      simp [Owners.take]
    · rw [hgiven.before k (by omega)]
      simp [Owners.take, ne_of_lt hk]
    · cases k with
      | zero => exact (hgiven.before j (by omega)).trans (by simp [Owners.take])
      | succ k =>
        rw [length_cons] at hk
        rw [show j + (k + 1) = j + 1 + k by omega, hgiven.entry k (by omega)]
        simp

structure Dealt (w : Owners) (lists : List (List SegId)) : Prop where
  count : forall t ids, lists[t]? = some ids -> (w.thread t).numSegs = ids.length
  entry : forall t ids, lists[t]? = some ids ->
    forall k, k < ids.length -> (w.thread t).segDetails k = ids[k]?
  free : forall id, id ∉ lists.flatten -> (w.seg id).owningThread = -1
  taken : forall id, id ∈ lists.flatten -> (w.seg id).inUse = true
  nodup : lists.flatten.Nodup

theorem Dealt.giveList {lists : List (List SegId)} {ids : List SegId}
    (hdealt : Dealt w lists) (hcount : (w.thread lists.length).numSegs = ids.length)
    (hnodup : ids.Nodup) (hnew : forall id, id ∈ ids -> id ∉ lists.flatten) :
    Dealt (giveList lists.length 0 ids w) (lists ++ [ids]) := by
  have hgiven := given_giveList lists.length 0 hnodup fun id hid => hdealt.free id (hnew id hid)
  have hcases : forall t ids', (lists ++ [ids])[t]? = some ids' ->
      (t = lists.length ∧ ids' = ids) ∨ (t ≠ lists.length ∧ lists[t]? = some ids') := by
    intro t ids' ht
    rcases lt_trichotomy t lists.length with hlt | rfl | hgt
    · rw [getElem?_append_left hlt] at ht
      exact .inr ⟨ne_of_lt hlt, ht⟩
    · simp only [getElem?_concat_length, Option.some.injEq] at ht
      exact .inl ⟨rfl, ht.symm⟩
    · rw [getElem?_eq_none (by simp; omega)] at ht
      cases ht
  refine ⟨fun t ids' ht => ?_, fun t ids' ht k hk => ?_, fun id hid => ?_, fun id hid => ?_, ?_⟩
  · rcases hcases t ids' ht with ⟨rfl, rfl⟩ | ⟨hne, ht⟩
    · rw [hgiven.numSegs, hcount]
    · rw [hgiven.other t hne]
      exact hdealt.count t ids' ht
  · rcases hcases t ids' ht with ⟨rfl, rfl⟩ | ⟨hne, ht⟩
    · simpa using hgiven.entry k hk
    · rw [hgiven.other t hne]
      exact hdealt.entry t ids' ht k hk
  · simp only [flatten_append, flatten_singleton, mem_append, not_or] at hid
    rw [hgiven.seg, if_neg hid.2]
    exact hdealt.free id hid.1
  · simp only [flatten_append, flatten_singleton, mem_append] at hid
    rw [hgiven.seg]
    split
    · rfl
    · rename_i hnot
      exact hdealt.taken id (hid.resolve_right hnot)
  · rw [flatten_append, flatten_singleton]
    exact Nodup.append hdealt.nodup hnodup fun id hid hid' => hnew id hid' hid

section

variable {pool : Pool} {inUse : Nat -> Nat} {n : Nat}

theorem setCounts_seg (th : Nat) (counts : List (Nat -> Nat)) (w : Owners) :
    (setCounts th counts w).seg = w.seg := by
  induction counts generalizing th w with
  | nil => rfl
  | cons c rest ih =>
    rw [setCounts, ih]
    rfl

theorem setCounts_of_lt {th t : Nat} (h : t < th) (counts : List (Nat -> Nat))
    (w : Owners) : (setCounts th counts w).thread t = w.thread t := by
  induction counts generalizing th w with
  | nil => rfl
  | cons c rest ih =>
    rw [setCounts, ih (by omega)]
    simp [Owners.setNumSegs, ne_of_lt h]

theorem setCounts_numSegs {th i : Nat} {counts : List (Nat -> Nat)} {c : Nat -> Nat}
    (h : counts[i]? = some c) (w : Owners) :
    ((setCounts th counts w).thread (th + i)).numSegs = totalSegs c := by
  induction counts generalizing th i w with
  | nil => simp at h
  | cons first rest ih =>
    rw [setCounts]
    cases i with
    | zero =>
      obtain rfl : first = c := by simpa using h
      have hsame := setCounts_of_lt (Nat.lt_succ_self th) rest (w.setNumSegs th (totalSegs first))
      exact (congrArg ThreadInfo.numSegs hsame).trans (by simp [Owners.setNumSegs])
    | succ i =>
      rw [show th + (i + 1) = th + 1 + i by omega]
      exact ih (by simpa using h) _

variable {lists : List (List SegId)}

theorem Dealt.setCounts (hdealt : Dealt w lists) (counts : List (Nat -> Nat)) :
    Dealt (setCounts lists.length counts w) lists := by
  have hthread : forall t ids, lists[t]? = some ids ->
      (Hxemem64.setCounts lists.length counts w).thread t = w.thread t := by
    intro t ids ht
    exact setCounts_of_lt (List.getElem?_eq_some_iff.mp ht).1 counts w
  refine ⟨fun t ids ht => ?_, fun t ids ht => ?_, ?_, ?_, hdealt.nodup⟩
  · rw [hthread t ids ht]
    exact hdealt.count t ids ht
  · rw [hthread t ids ht]
    exact hdealt.entry t ids ht
  · rw [setCounts_seg]
    exact hdealt.free
  · rw [setCounts_seg]
    exact hdealt.taken

theorem Dealt.giveThreads {start t left : Nat} (hdealt : Dealt w lists)
    (hlength : lists.length = start + t)
    (hcount : forall t', t ≤ t' -> t' < t + left ->
      (w.thread (start + t')).numSegs = (segsOf pool inUse n t').length)
    (hnew : forall t', t ≤ t' -> t' < t + left -> forall id,
      id ∈ segsOf pool inUse n t' -> id ∉ lists.flatten) :
    Dealt (giveThreads pool inUse n start (range' t left) w)
      (lists ++ (range' t left).map (segsOf pool inUse n)) := by
  induction left generalizing t w lists with
  | zero => simpa [Hxemem64.giveThreads] using hdealt
  | succ left ih =>
    have hone : Dealt (Hxemem64.giveList (start + t) 0 (segsOf pool inUse n t) w)
        (lists ++ [segsOf pool inUse n t]) := by
      rw [← hlength]
      refine hdealt.giveList ?_ (nodup_segsOf pool inUse n t) (hnew t le_rfl (by omega))
      rw [hlength]
      exact hcount t le_rfl (by omega)
    have hgiven := given_giveList (start + t) 0 (nodup_segsOf pool inUse n t)
      fun id hid => hdealt.free id (hnew t le_rfl (by omega) id hid)
    rw [range'_succ, map_cons, append_cons]
    refine ih hone ?_ ?_ ?_
    · simp only [length_append, hlength, length_singleton]
      omega
    · intro t' hge hlt
      rw [hgiven.other _ (by omega)]
      exact hcount t' (by omega) (by omega)
    · intro t' hge hlt id hid
      simp only [flatten_append, flatten_singleton, mem_append, not_or]
      refine ⟨hnew t' (by omega) (by omega) id hid, fun hid' => ?_⟩
      exact segsOf_disjoint pool inUse n (by omega : t' ≠ t) hid hid'

theorem Dealt.fillThreads {start : Nat} (hdealt : Dealt w lists) (hlength : lists.length = start)
    (hnew : forall t, t < n -> forall id, id ∈ segsOf pool inUse n t -> id ∉ lists.flatten) :
    Dealt (fillThreads pool inUse n start w)
      (lists ++ (range n).map (segsOf pool inUse n)) := by
  rw [fillThreads_eq, range_eq_range']
  subst hlength
  refine Dealt.giveThreads (hdealt.setCounts _) rfl (fun t _ ht => ?_) fun t _ ht => ?_
  · rw [length_segsOf]
    refine setCounts_numSegs ?_ w
    rw [← range_eq_range', getElem?_map, getElem?_range (by omega)]
    rfl
  · exact hnew t (by omega)

end

end Htx.Hxemem64
