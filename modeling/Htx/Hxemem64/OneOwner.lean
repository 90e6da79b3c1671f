import Htx.Library.EventSystem
import Htx.Hxemem64.Dealing

/-!
# One owner for every segment

The segments of a memory chip are all dealt to the threads of one chip.
-/

namespace Htx.Hxemem64

open List Option Selection Prod Nat Library

variable {m : NestMachine}

def Selection.InUse (s : Selection m) (id : SegId) : Prop :=
  id.page < maxPageSizes ∧ id.index < s.inUseNumOfSegments id.pool id.page

/-- After a successful `fill_thread_context`: every entry of every thread holds a
segment in use, no segment stands in two entries, and the segments in use of every pool
that was assigned are all there. -/
structure OneOwner (s : Selection m) (r : Filled) : Prop where
  filled : forall t, t < r.numThreads -> forall j, j < (r.owners.thread t).numSegs ->
    exists id, (r.owners.thread t).segDetails j = some id ∧ s.InUse id
  distinct : forall t t' j j', t < r.numThreads -> t' < r.numThreads ->
    j < (r.owners.thread t).numSegs -> j' < (r.owners.thread t').numSegs ->
    (r.owners.thread t).segDetails j = (r.owners.thread t').segDetails j' ->
    t = t' ∧ j = j'
  covered : forall id, id.pool ∈ r.assigned -> s.InUse id ->
    exists t j, t < r.numThreads ∧ j < (r.owners.thread t).numSegs ∧
      (r.owners.thread t).segDetails j = some id

variable {lists : List (List SegId)}

theorem getElem_of_flatten_nodup (hnodup : lists.flatten.Nodup)
    {t t' j j' : Nat} {ids ids' : List SegId} {id : SegId} (ht : lists[t]? = some ids)
    (ht' : lists[t']? = some ids') (hj : ids[j]? = some id) (hj' : ids'[j']? = some id) :
    t = t' ∧ j = j' := by
  rcases nodup_flatten.mp hnodup with ⟨heach, hdisjoint⟩
  have hne : t = t' := by
    by_contra hne
    obtain ⟨hlt, rfl⟩ := List.getElem?_eq_some_iff.mp ht
    obtain ⟨hlt', rfl⟩ := List.getElem?_eq_some_iff.mp ht'
    have hpair := pairwise_iff_getElem.mp hdisjoint
    rcases lt_or_gt_of_ne hne with h | h
    · exact hpair t t' hlt hlt' h (mem_of_getElem? hj) (mem_of_getElem? hj')
    · exact hpair t' t hlt' hlt h (mem_of_getElem? hj') (mem_of_getElem? hj)
  subst hne
  obtain rfl : ids = ids' := some_injective _ (ht.symm.trans ht')
  refine ⟨rfl, ?_⟩
  have hids : ids.Nodup := heach ids (mem_of_getElem? ht)
  exact (List.getElem?_inj (List.getElem?_eq_some_iff.mp hj).1 hids).mp (hj.trans hj'.symm)

theorem Dealt.oneOwner {s : Selection m} {r : Filled}
    (hdealt : Dealt r.owners lists) (hlength : lists.length = r.numThreads)
    (hexact : forall id, id ∈ lists.flatten ↔ s.InUse id ∧ id.pool ∈ r.assigned) :
    OneOwner s r := by
  have hlist : forall t, t < r.numThreads -> exists ids, lists[t]? = some ids := by
    intro t ht
    exact ⟨_, getElem?_eq_getElem (hlength ▸ ht)⟩
  have hentry : forall t ids, lists[t]? = some ids -> forall j, j < (r.owners.thread t).numSegs ->
        exists id, ids[j]? = some id ∧ (r.owners.thread t).segDetails j = some id := by
    intro t ids ht j hj
    rw [hdealt.count t ids ht] at hj
    have hget := getElem?_eq_getElem hj
    exact ⟨_, hget, (hdealt.entry t ids ht j hj).trans hget⟩
  refine ⟨fun t ht j hj => ?_, fun t t' j j' ht ht' hj hj' heq => ?_, fun id hpool huse => ?_⟩
  · rcases hlist t ht with ⟨ids, hids⟩
    rcases hentry t ids hids j hj with ⟨id, hid, hdetail⟩
    have hmem : id ∈ lists.flatten :=
      mem_flatten.mpr ⟨ids, mem_of_getElem? hids, mem_of_getElem? hid⟩
    exact ⟨id, hdetail, ((hexact id).mp hmem).1⟩
  · rcases hlist t ht with ⟨ids, hids⟩
    rcases hlist t' ht' with ⟨ids', hids'⟩
    rcases hentry t ids hids j hj with ⟨id, hid, hdetail⟩
    rcases hentry t' ids' hids' j' hj' with ⟨id', hid', hdetail'⟩
    obtain rfl : id = id' := some_injective _ (hdetail.symm.trans (heq.trans hdetail'))
    exact getElem_of_flatten_nodup hdealt.nodup hids hids' hid hid'
  · rcases mem_flatten.mp ((hexact id).mpr ⟨huse, hpool⟩) with ⟨ids, hids, hid⟩
    rcases mem_iff_getElem?.mp hids with ⟨t, ht⟩
    rcases mem_iff_getElem?.mp hid with ⟨j, hj⟩
    have hjlt := (List.getElem?_eq_some_iff.mp hj).1
    refine ⟨t, j, ?_, ?_, (hdealt.entry t ids ht j hjlt).trans hj⟩
    · rw [← hlength]
      exact (List.getElem?_eq_some_iff.mp ht).1
    · rw [hdealt.count t ids ht]
      exact hjlt

theorem mem_poolLists (s : Selection m) (pool : Pool) {n : Nat} (hn : n ≠ 0) (id : SegId) :
    id ∈ ((List.range n).map (segsOf pool (s.inUseNumOfSegments pool) n)).flatten ↔
      s.InUse id ∧ id.pool = pool := by
  have hmem := exists_mem_segsOf pool (s.inUseNumOfSegments pool) n (pos_of_ne_zero hn) id
  simp only [List.mem_flatten, List.mem_map, List.mem_range]
  constructor
  · rintro ⟨ids, ⟨t, ht, rfl⟩, hid⟩
    rcases hmem.mp ⟨t, ht, hid⟩ with ⟨hpool, hpage, hindex⟩
    exact ⟨⟨hpage, hpool ▸ hindex⟩, hpool⟩
  · rintro ⟨⟨hpage, hindex⟩, hpool⟩
    rcases hmem.mpr ⟨hpool, hpage, hpool ▸ hindex⟩ with ⟨t, ht, hid⟩
    exact ⟨_, ⟨t, ht, rfl⟩, hid⟩

/-!
## The loop over the chips
-/

section

variable {s : Selection m} {l l' : ChipLoop}

structure ChipInv (s : Selection m) (l : ChipLoop) (lists : List (List SegId)) : Prop where
  dealt : Dealt l.owners lists
  length : lists.length = l.startThreadIndex
  exact : forall id, id ∈ lists.flatten ↔
    s.InUse id ∧ exists p, p ∈ l.assigned ∧ id.pool = .chip p.2

def Fresh (s : Selection m) (l : ChipLoop) (memChip : Nat) : Prop :=
  (exists p, p ∈ l.assigned ∧ p.2 = memChip) ->
    forall page, s.inUseNumOfSegments (.chip memChip) page = 0

variable {lists : List (List SegId)} {chips : List Nat} {chip : Nat}

theorem ChipInv.withSearch (hinv : ChipInv s l lists) (affinity : Affinity) (used : Nat -> Bool) :
    ChipInv s { l with affinity := affinity, memChipUsed := used } lists :=
  ⟨hinv.dealt, hinv.length, hinv.exact⟩

theorem ChipInv.fill (hinv : ChipInv s l lists) {cpuChip memChip : Nat}
    (hcpus : s.inUseNumCpus cpuChip ≠ 0) (hfresh : Fresh s l memChip) :
    exists lists', ChipInv s (fillAffinityBasedThreadStructure s cpuChip memChip l) lists' := by
  have hlists := mem_poolLists s (.chip memChip) hcpus
  refine ⟨lists ++ (range (s.inUseNumCpus cpuChip)).map
    (segsOf (.chip memChip) (s.inUseNumOfSegments (.chip memChip)) (s.inUseNumCpus cpuChip)),
    ?_, ?_, fun id => ?_⟩
  · refine hinv.dealt.fillThreads hinv.length fun t ht id hid hold => ?_
    have hnew := (hlists id).mp (mem_flatten.mpr ⟨_, mem_map_of_mem (mem_range.mpr ht), hid⟩)
    rcases ((hinv.exact id).mp hold).2 with ⟨p, hp, hpool⟩
    have hchip : p.2 = memChip := Pool.chip.inj (hpool.symm.trans hnew.2)
    have hindex := hnew.1.2
    rw [hnew.2, hfresh ⟨p, hp, hchip⟩] at hindex
    omega
  · simp [fillAffinityBasedThreadStructure, hinv.length]
  · rw [flatten_append, mem_append, hinv.exact, hlists]
    simp only [fillAffinityBasedThreadStructure, mem_append, mem_singleton]
    constructor
    · rintro (⟨huse, p, hp, hpool⟩ | ⟨huse, hpool⟩)
      · exact ⟨huse, p, .inl hp, hpool⟩
      · exact ⟨huse, _, .inr rfl, hpool⟩
    · rintro ⟨huse, p, hp | rfl, hpool⟩
      · exact .inl ⟨huse, p, hp, hpool⟩
      · exact .inr ⟨huse, hpool⟩

theorem fillChips_own (hnodup : chips.Nodup) (haffinity : l.affinity ≠ .remoteChip)
    (hahead : forall p, p ∈ l.assigned -> p.2 ∉ chips) (hinv : ChipInv s l lists)
    (hfill : fillChips s chips l = some l') :
    exists lists', ChipInv s l' lists' := by
  induction chips generalizing l lists with
  | nil =>
    cases hfill
    exact ⟨lists, hinv⟩
  | cons chip rest ih =>
    rw [nodup_cons] at hnodup
    have hchip : fillChip s chip l = some l ∨ (s.inUseNumCpus chip ≠ 0 ∧
          fillChip s chip l = some (fillAffinityBasedThreadStructure s chip chip l)) ∨
        fillChip s chip l = none := by
      unfold fillChip
      split
      · exact .inl rfl
      · rename_i hcpus
        split
        · split
          · exact .inr (.inl ⟨hcpus, rfl⟩)
          · exact .inr (.inr rfl)
        · exact .inr (.inl ⟨hcpus, rfl⟩)
        · rename_i hremote
          exact absurd hremote haffinity
        · exact .inr (.inr rfl)
        · exact .inr (.inr rfl)
    rcases hchip with hsame | ⟨hcpus, hsome⟩ | hnone
    · rw [fillChips, hsame, bind_some] at hfill
      exact ih hnodup.2 haffinity (fun p hp h => hahead p hp (mem_cons_of_mem chip h)) hinv hfill
    · rw [fillChips, hsome, bind_some] at hfill
      have hfresh : Fresh s l chip := by
        rintro ⟨p, hp, rfl⟩
        exact absurd (mem_cons_self ..) (hahead p hp)
      rcases hinv.fill hcpus hfresh with ⟨lists', hinv'⟩
      refine ih (l := fillAffinityBasedThreadStructure s chip chip l) hnodup.2 haffinity
        (fun p hp => ?_) hinv' hfill
      simp only [fillAffinityBasedThreadStructure, mem_append, mem_singleton] at hp
      rcases hp with hp | rfl
      · exact fun h => hahead p hp (mem_cons_of_mem chip h)
      · exact hnodup.1
    · rw [fillChips, hnone] at hfill
      cases hfill

/-!
## The search for a remote chip
-/

theorem exists_of_round {pools i y : Nat} (hchip : chip < pools)
    (hround : (chip + (i + 1)) % pools = chip) (hy : y < pools) (hne : y ≠ chip) :
    exists k, 0 < k ∧ k ≤ i ∧ (chip + k) % pools = y := by
  have hfull : pools ≤ i + 1 := by
    refine le_of_dvd (succ_pos i) ?_
    have hmod : chip + (i + 1) ≡ chip + 0 [MOD pools] := by
      rw [ModEq, hround, add_zero, mod_eq_of_lt hchip]
    exact (modEq_zero_iff_dvd).mp (ModEq.add_left_cancel' chip hmod)
  rcases lt_or_gt_of_ne hne with hlt | hgt
  · refine ⟨y + pools - chip, by omega, by omega, ?_⟩
    rw [show chip + (y + pools - chip) = y + pools by omega, add_mod_right, mod_eq_of_lt hy]
  · refine ⟨y - chip, by omega, by omega, ?_⟩
    rw [show chip + (y - chip) = y by omega, mod_eq_of_lt hy]

def PassedOver (s : Selection m) (used : Nat -> Bool) (chip : Nat) : Prop :=
  used chip = true ∨ s.memInUse chip = false

theorem findRemote_spec {memChip x i fuel : Nat} {used : Nat -> Bool}
    (hpos : (memChip + 1) % m.numChipMemPools = (chip + (i + 1)) % m.numChipMemPools)
    (hpassed : forall k, 0 < k -> k ≤ i -> PassedOver s used ((chip + k) % m.numChipMemPools))
    (h : findRemote s chip used fuel memChip = some x) :
    x < m.numChipMemPools ∧ ((x ≠ chip ∧ used x = false ∧ s.memInUse x = true) ∨
        (x = chip ∧ forall y, y < m.numChipMemPools -> y ≠ chip -> PassedOver s used y)) := by
  induction fuel generalizing memChip i with
  | zero => cases h
  | succ fuel ih =>
    rw [findRemote] at h
    split at h
    · cases h
    · rename_i hpools
      have hlt : (memChip + 1) % m.numChipMemPools < m.numChipMemPools :=
        mod_lt _ (pos_of_ne_zero hpools)
      have hnext : PassedOver s used ((memChip + 1) % m.numChipMemPools) ->
          findRemote s chip used fuel ((memChip + 1) % m.numChipMemPools) = some x ->
          x < m.numChipMemPools ∧ ((x ≠ chip ∧ used x = false ∧ s.memInUse x = true) ∨ (x = chip ∧
                forall y, y < m.numChipMemPools -> y ≠ chip -> PassedOver s used y)) := by
        intro hthis hrest
        refine ih (i := i + 1) ?_ (fun k hk hki => ?_) hrest
        · rw [hpos, mod_add_mod]
          congr 1
        · rcases lt_or_ge i k with hik | hik
          · obtain rfl : k = i + 1 := by omega
            rwa [← hpos]
          · exact hpassed k hk hik
      simp only [] at h
      split at h
      · rename_i hchip
        cases h
        refine ⟨hlt, .inr ⟨hchip, fun y hy hne => ?_⟩⟩
        rw [hchip] at hlt
        rcases exists_of_round hlt (hpos.symm.trans hchip) hy hne with ⟨k, hk, hki, rfl⟩
        exact hpassed k hk hki
      · rename_i hchip
        split at h
        · rename_i hused
          exact hnext (.inl hused) h
        · rename_i hused
          split at h
          · rename_i huse
            cases h
            exact ⟨hlt, .inl ⟨hchip, by simpa using hused, huse⟩⟩
          · rename_i huse
            exact hnext (.inr (by simpa using huse)) h

def Selection.cpuChips (s : Selection m) (chips : List Nat) : List Nat :=
  chips.filter fun chip => s.inUseNumCpus chip ≠ 0

def Selection.memChips (s : Selection m) : List Nat :=
  (range m.numChipMemPools).filter s.memInUse

theorem fillChips_of_no_cpus (h : s.cpuChips chips = []) : fillChips s chips l = some l := by
  induction chips with
  | nil => rfl
  | cons chip rest ih =>
    simp only [cpuChips, filter_eq_nil_iff, mem_cons, decide_eq_true_eq,
      not_not, forall_eq_or_imp] at h
    have hrest : s.cpuChips rest = [] := by
      simpa [cpuChips, filter_eq_nil_iff] using h.2
    rw [fillChips, fillChip, if_pos h.1, bind_some, ih hrest]

theorem fillChips_local_fails (haffinity : l.affinity = .local) (hchip : chip ∈ s.cpuChips chips)
    (huse : s.memInUse chip = false) :
    fillChips s chips l = none := by
  induction chips generalizing l with
  | nil => simp [cpuChips] at hchip
  | cons first rest ih =>
    rw [fillChips]
    cases hfill : fillChip s first l with
    | none => rfl
    | some l' =>
      rw [bind_some]
      have hfirst : l'.affinity = .local ∧
          (s.inUseNumCpus first ≠ 0 -> s.memInUse first = true) := by
        by_cases hcpus : s.inUseNumCpus first = 0
        · rw [fillChip, if_pos hcpus] at hfill
          cases hfill
          exact ⟨haffinity, fun h => absurd hcpus h⟩
        · rw [fillChip, if_neg hcpus, haffinity] at hfill
          cases hmem : s.memInUse first <;> simp only [hmem] at hfill <;> cases hfill
          exact ⟨haffinity, fun _ => rfl⟩
      have hne : chip ≠ first := by
        rintro rfl
        have hcpus : s.inUseNumCpus chip ≠ 0 := by
          simpa using of_mem_filter hchip
        rw [hfirst.2 hcpus] at huse
        cases huse
      refine ih hfirst.1 ?_
      simp only [cpuChips, mem_filter, mem_cons] at hchip ⊢
      exact ⟨hchip.1.resolve_left hne, hchip.2⟩

structure RemoteInv (s : Selection m) (l : ChipLoop) : Prop where
  affinity : l.affinity = .remoteChip
  used : forall x, l.memChipUsed x = true ↔ x ∈ l.assigned.map snd
  inUse : forall x, x ∈ l.assigned.map snd -> x ∈ s.memChips
  nodup : (l.assigned.map snd).Nodup

def Enough (s : Selection m) (l : ChipLoop) (chips : List Nat) : Prop :=
  l.assigned.length + (s.cpuChips chips).length ≤ s.memChips.length ∨
    (l.assigned.length + (s.cpuChips chips).length = s.memChips.length + 1 ∧
      forall chip, (s.cpuChips chips).getLast? = some chip -> s.memInUse chip = false)

theorem Enough.tail {rest : List Nat} (h : Enough s l (chip :: rest))
    (hcpus : s.inUseNumCpus chip ≠ 0) (hlength : l'.assigned.length = l.assigned.length + 1) :
    Enough s l' rest := by
  have hcons : s.cpuChips (chip :: rest) = chip :: s.cpuChips rest := by
    simp [cpuChips, hcpus]
  rw [Enough, hcons, length_cons] at h
  rw [Enough, hlength]
  rcases h with h | ⟨h, hlast⟩
  · exact .inl (by omega)
  · refine .inr ⟨by omega, fun last hlast' => hlast last ?_⟩
    rw [getLast?_cons, hlast']
    rfl

section

variable (hremote : RemoteInv s l)

include hremote

theorem length_memChips_le
    (hpassed : forall y, y < m.numChipMemPools -> y ≠ chip -> PassedOver s l.memChipUsed y) :
    s.memChips.length ≤ l.assigned.length ∨ (s.memChips.length ≤ l.assigned.length + 1 ∧
        chip ∉ l.assigned.map snd) := by
  have hnodup : s.memChips.Nodup := Nodup.filter _ nodup_range
  have hsubset : forall y, y ∈ s.memChips -> y ≠ chip -> y ∈ l.assigned.map snd := by
    intro y hy hne
    simp only [memChips, mem_filter, mem_range] at hy
    rcases hpassed y hy.1 hne with hused | huse
    · exact (hremote.used y).mp hused
    · rw [hy.2] at huse
      cases huse
  by_cases hchip : chip ∈ l.assigned.map snd
  · left
    have hle := (subperm_of_subset hnodup (fun y hy => show y ∈ l.assigned.map snd by
      by_cases hne : y = chip
      · exact hne ▸ hchip
      · exact hsubset y hy hne)).length_le
    simpa using hle
  · right
    refine ⟨?_, hchip⟩
    have hle := (subperm_of_subset hnodup (fun y hy =>
      show y ∈ chip :: l.assigned.map snd by
        by_cases hne : y = chip
        · exact hne ▸ mem_cons_self ..
        · exact mem_cons_of_mem _ (hsubset y hy hne))).length_le
    simpa using hle

theorem fallback {rest : List Nat} (henough : Enough s l (chip :: rest))
    (hcpus : s.inUseNumCpus chip ≠ 0)
    (hpassed : forall y, y < m.numChipMemPools -> y ≠ chip -> PassedOver s l.memChipUsed y)
    {l₁ : ChipLoop} (hlocal : l₁.affinity = .local) (hfill : fillChips s rest l₁ = some l') :
    Fresh s l chip ∧ s.cpuChips rest = [] := by
  have hcons : s.cpuChips (chip :: rest) = chip :: s.cpuChips rest := by
    simp [cpuChips, hcpus]
  have hunassigned : chip ∉ l.assigned.map snd -> Fresh s l chip := by
    rintro hnot ⟨p, hp, rfl⟩
    exact absurd (mem_map_of_mem hp) hnot
  rw [Enough, hcons, length_cons] at henough
  rcases henough with hle | ⟨heq, hlast⟩
  · rcases length_memChips_le hremote hpassed with hmem | ⟨hmem, hnot⟩
    · omega
    · exact ⟨hunassigned hnot, eq_nil_of_length_eq_zero (by omega)⟩
  · -- a chip after this one would be the last, with no memory in use of its own
    have hnil : s.cpuChips rest = [] := by
      by_contra hne
      have hlast' := getLast?_eq_some_getLast hne
      have huse := hlast ((s.cpuChips rest).getLast hne) (by simp [getLast?_cons, hlast'])
      rw [fillChips_local_fails hlocal (getLast_mem hne) huse] at hfill
      cases hfill
    refine ⟨?_, hnil⟩
    rcases length_memChips_le hremote hpassed with hmem | ⟨_, hnot⟩
    · intro _ page
      refine s.selected chip page (hlast chip ?_)
      rw [hnil]
      rfl
    · exact hunassigned hnot

theorem RemoteInv.fill (chip : Nat) {x : Nat}
    (hnot : x ∉ l.assigned.map snd) (hx : x ∈ s.memChips) :
    RemoteInv s (fillAffinityBasedThreadStructure s chip x
      { l with affinity := .remoteChip
               memChipUsed := Function.update l.memChipUsed x true }) := by
  refine ⟨rfl, fun y => ?_, fun y hy => ?_, ?_⟩
  · by_cases hy : y = x
    · simp [fillAffinityBasedThreadStructure, hy]
    · simpa [fillAffinityBasedThreadStructure, hy] using hremote.used y
  · simp only [fillAffinityBasedThreadStructure, map_append, map_cons, map_nil,
      mem_append, mem_singleton] at hy
    rcases hy with hy | rfl
    · exact hremote.inUse y hy
    · exact hx
  · simp only [fillAffinityBasedThreadStructure, map_append, map_cons, map_nil]
    exact hremote.nodup.append (nodup_singleton x) (disjoint_singleton.mpr hnot)

theorem fillChips_remote (henough : Enough s l chips)
    (hinv : ChipInv s l lists) (hfill : fillChips s chips l = some l') :
    exists lists', ChipInv s l' lists' := by
  induction chips generalizing l lists with
  | nil =>
    cases hfill
    exact ⟨lists, hinv⟩
  | cons chip rest ih =>
    rw [fillChips] at hfill
    by_cases hcpus : s.inUseNumCpus chip = 0
    · rw [fillChip, if_pos hcpus, bind_some] at hfill
      refine ih hremote ?_ hinv hfill
      simpa [Enough, cpuChips, hcpus] using henough
    · rw [fillChip, if_neg hcpus, hremote.affinity] at hfill
      cases hsearch : findRemote s chip l.memChipUsed (m.numChipMemPools + 1) chip with
      | none => simp [hsearch] at hfill
      | some x =>
        simp only [hsearch, bind_some] at hfill
        rcases findRemote_spec (i := 0) rfl (fun k hk hki => by omega) hsearch with
          ⟨hlt, ⟨hne, hunused, huse⟩ | ⟨rfl, hpassed⟩⟩
        · have hnot : x ∉ l.assigned.map snd := by
            rw [← hremote.used, hunused]
            simp
          have hfresh : Fresh s l x := by
            rintro ⟨p, hp, rfl⟩
            exact absurd (mem_map_of_mem hp) hnot
          rw [if_neg hne] at hfill
          rcases (hinv.withSearch .remoteChip
            (Function.update l.memChipUsed x true)).fill hcpus hfresh with ⟨lists', hinv'⟩
          refine ih (hremote.fill chip hnot ?_) (henough.tail hcpus ?_) hinv' hfill
          · simp [memChips, hlt, huse]
          · simp [fillAffinityBasedThreadStructure]
        · rw [if_pos rfl] at hfill
          rcases fallback hremote henough hcpus hpassed rfl hfill with ⟨hfresh, hnil⟩
          rw [fillChips_of_no_cpus hnil] at hfill
          cases hfill
          exact (hinv.withSearch _ _).fill hcpus hfresh

end

end

/-!
## Stanzas
-/

/-- Filters are disabled, or the affinity is not `REMOTE_CHIP`, or there are enough
memory chips in use for the chips with CPUs: as many, or one less if the last chip with
CPUs has no memory in use. -/
def Selection.Suitable (s : Selection m) : Prop :=
  s.disableFilters = true ∨ s.affinity ≠ .remoteChip ∨
    let cpuChips := s.cpuChips (range m.maxChips)
    cpuChips.length ≤ s.memChips.length ∨ (cpuChips.length = s.memChips.length + 1 ∧
        forall chip, cpuChips.getLast? = some chip -> s.memInUse chip = false)

def Owners.Clean (w : Owners) : Prop :=
  forall id, (w.seg id).owningThread = -1

section

variable {s : Selection m} {w : Owners} {r : Filled}

theorem dealt_newThreads (hclean : w.Clean) : Dealt (newThreads w) [] :=
  ⟨fun t ids ht => by simp at ht, fun t ids ht => by simp at ht, fun id _ => hclean id,
    fun id hid => by simp at hid, nodup_nil⟩

theorem fillDisabled_dealt (hclean : w.Clean)
    (hfill : fillThreadContextWithFiltersDisabled s (newThreads w) = some r) :
    exists lists, Dealt r.owners lists ∧ lists.length = r.numThreads ∧
      forall id, id ∈ lists.flatten ↔ s.InUse id ∧ id.pool ∈ r.assigned := by
  unfold fillThreadContextWithFiltersDisabled at hfill
  split at hfill
  · cases hfill
  · rename_i hthreads
    cases hfill
    refine ⟨_, (dealt_newThreads hclean).fillThreads rfl fun t _ id _ hold => ?_, by simp,
      fun id => ?_⟩
    · simp at hold
    · rw [nil_append, mem_singleton]
      exact mem_poolLists s .system hthreads id

theorem fillChips_inv (hsuitable : s.Suitable) (hfilters : s.disableFilters = false)
    (hdealt : Dealt w []) {l : ChipLoop}
    (hfill : fillChips s (range m.maxChips) ⟨s.affinity, fun _ => false, 0, w, []⟩ =
      some l) : exists lists, ChipInv s l lists := by
  have hinv : ChipInv s ⟨s.affinity, fun _ => false, 0, w, []⟩ [] :=
    ⟨hdealt, rfl, fun id => by simp⟩
  by_cases haffinity : s.affinity = .remoteChip
  · have hremote : RemoteInv s ⟨s.affinity, fun _ => false, 0, w, []⟩ :=
      ⟨haffinity, fun x => by simp, fun x hx => by simp at hx, nodup_nil⟩
    refine fillChips_remote hremote ?_ hinv hfill
    have henough := (hsuitable.resolve_left (by simp [hfilters])).resolve_left (by simp [haffinity])
    simpa [Enough] using henough
  · exact fillChips_own nodup_range haffinity (fun p hp => by simp at hp) hinv hfill

theorem fillThreadContext_dealt (hsuitable : s.Suitable) (hclean : w.Clean)
    (hfill : fillThreadContext s w = some r) :
    exists lists, Dealt r.owners lists ∧ lists.length = r.numThreads ∧
      forall id, id ∈ lists.flatten ↔ s.InUse id ∧ id.pool ∈ r.assigned := by
  unfold fillThreadContext at hfill
  cases hfilters : s.disableFilters with
  | true =>
    rw [if_pos hfilters] at hfill
    exact fillDisabled_dealt hclean hfill
  | false =>
    rw [if_neg (by simp [hfilters])] at hfill
    rcases map_eq_some_iff.mp hfill with ⟨l, hl, rfl⟩
    rcases fillChips_inv hsuitable hfilters (dealt_newThreads hclean) hl with ⟨lists, hinv⟩
    refine ⟨lists, hinv.dealt, hinv.length, fun id => ?_⟩
    rw [hinv.exact, List.mem_map]
    refine and_congr_right fun _ => exists_congr fun p => and_congr_right fun _ => ?_
    exact eq_comm

theorem clean_reset (hdealt : Dealt w lists)
    (huse : forall id, id ∈ lists.flatten -> s.InUse id ∧ m.Resets s.disableFilters id.pool) :
    (resetSegmentOwners m s.disableFilters w).Clean := by
  intro id
  simp only [resetSegmentOwners]
  split
  · rfl
  · rename_i hnot
    refine hdealt.free id fun hid => hnot ?_
    rcases huse id hid with ⟨⟨hpage, hindex⟩, hresets⟩
    exact ⟨hresets, hpage, hindex.trans_le (s.exist _ _), hdealt.taken id hid⟩

theorem resets_of_inUse (hfill : fillThreadContext s w = some r) {id : SegId}
    (huse : s.InUse id) (hpool : id.pool ∈ r.assigned) :
    m.Resets s.disableFilters id.pool := by
  rcases id with ⟨pool, page, index⟩
  unfold fillThreadContext at hfill
  cases hfilters : s.disableFilters with
  | true =>
    rw [if_pos hfilters, fillThreadContextWithFiltersDisabled] at hfill
    split at hfill
    · cases hfill
    · cases hfill
      obtain rfl : pool = .system := mem_singleton.mp hpool
      rfl
  | false =>
    rw [if_neg (by simp [hfilters])] at hfill
    rcases map_eq_some_iff.mp hfill with ⟨l, _, rfl⟩
    rcases mem_map.mp hpool with ⟨p, _, rfl⟩
    have hexist := s.exist (.chip p.2) page
    have hindex := huse.2
    exact ⟨rfl, m.allocated p.2 page (by simp only at hindex; omega)⟩

end

/-!
## Successive stanzas
-/

structure StanzaState (m : NestMachine) where
  owners : Owners
  current : Option (Selection m × Filled)

inductive StanzaEvent (m : NestMachine) where
  | fill (s : Selection m)
  | reset

def StanzaState.step (st : StanzaState m) : StanzaEvent m -> Option (StanzaState m)
  | .fill s =>
    match st.current with
    | none => (fillThreadContext s st.owners).map fun r => ⟨r.owners, some (s, r)⟩
    | some _ => none
  | .reset =>
    match st.current with
    | none => none
    | some (s, _) => some ⟨resetSegmentOwners m s.disableFilters st.owners, none⟩

open StanzaState

def stanzaSystem (m : NestMachine) : EventSystem (StanzaState m) (StanzaEvent m) where
  Initial := fun st => st.owners.Clean ∧ st.current = none
  step := step

def SuitableEvent (_ : StanzaState m) : StanzaEvent m -> Prop
  | .fill s => s.Suitable
  | .reset => True

structure StanzaInv (st : StanzaState m) : Prop where
  clean : st.current = none -> st.owners.Clean
  filled : forall s r, st.current = some (s, r) ->
    OneOwner s r ∧ (resetSegmentOwners m s.disableFilters st.owners).Clean

theorem StanzaInv.fill {st : StanzaState m} (hinv : StanzaInv st) {s : Selection m}
    (hsuitable : s.Suitable) (hnone : st.current = none) {r : Filled}
    (hfill : fillThreadContext s st.owners = some r) :
    StanzaInv (⟨r.owners, some (s, r)⟩ : StanzaState m) := by
  rcases fillThreadContext_dealt hsuitable (hinv.clean hnone) hfill with
    ⟨lists, hdealt, hlength, hexact⟩
  constructor
  · intro h
    cases h
  · intro s' r' h
    cases h
    refine ⟨hdealt.oneOwner hlength hexact, clean_reset hdealt fun id hid => ?_⟩
    rcases (hexact id).mp hid with ⟨huse, hpool⟩
    exact ⟨huse, resets_of_inUse hfill huse hpool⟩

theorem oneOwner_of_suitable {st : StanzaState m}
    (h : (stanzaSystem m).ReachableUnder SuitableEvent st) {s : Selection m} {r : Filled}
    (hcurrent : st.current = some (s, r)) : OneOwner s r := by
  suffices hinv : StanzaInv st from (hinv.filled s r hcurrent).1
  clear hcurrent
  induction h with
  | init hinit =>
    refine ⟨fun _ => hinit.1, fun s r h => ?_⟩
    rw [hinit.2] at h
    cases h
  | @step st _ e _ hguard hstep ih =>
    cases e with
    | fill s =>
      cases hcurrent : st.current with
      | none =>
        simp only [stanzaSystem, step, hcurrent] at hstep
        rcases map_eq_some_iff.mp hstep with ⟨r, hr, rfl⟩
        exact ih.fill hguard hcurrent hr
      | some _ => simp [stanzaSystem, step, hcurrent] at hstep
    | reset =>
      cases hcurrent : st.current with
      | none => simp [stanzaSystem, step, hcurrent] at hstep
      | some current =>
        rcases current with ⟨s, r⟩
        simp only [stanzaSystem, step, hcurrent, some.injEq] at hstep
        subst hstep
        refine ⟨fun _ => (ih.filled s r hcurrent).2, fun s r h => ?_⟩
        cases h

def twoChips : NestMachine where
  maxChips := 2
  numChipMemPools := 2
  hasCpuAndMem := fun _ => true
  numOfSegments := fun pool page =>
    if pool = .chip 0 ∧ page = 0 ∨ pool = .chip 1 ∧ page = 0 then 1 else 0
  allocated := by
    intro n page h
    simp only [Pool.chip.injEq, ne_eq, ite_eq_right_iff, one_ne_zero, imp_false, not_not] at h
    refine ⟨?_, rfl⟩
    omega

def remoteFrom (first : Nat) : Selection twoChips where
  disableFilters := false
  affinity := .remoteChip
  numThreads := 2
  inUseNumCpus := fun chip => if chip < 2 then 1 else 0
  memInUse := fun chip => decide (first ≤ chip ∧ chip < 2)
  inUseNumOfSegments := fun pool page =>
    match pool with
    | .chip n => if (first ≤ n ∧ n < 2) ∧ page = 0 then 1 else 0
    | .system => 0
  exist := by
    intro pool page
    cases pool with
    | chip n =>
      simp only [twoChips, Pool.chip.injEq]
      split <;> split <;> omega
    | system =>
      exact zero_le _
  selected := by
    intro n page h
    have hnot : ¬ (first ≤ n ∧ n < 2) := of_decide_eq_false h
    simp only [hnot, false_and, if_false]

def noOwners : Owners where
  seg := fun _ => ⟨-1, false⟩
  thread := fun _ => ⟨0, fun _ => none⟩

theorem oneOwner_two_chips :
    exists r, fillThreadContext (remoteFrom 0) noOwners = some r ∧ OneOwner (remoteFrom 0) r := by
  obtain ⟨r, hr⟩ : exists r, fillThreadContext (remoteFrom 0) noOwners = some r :=
    isSome_iff_exists.mp (by decide)
  refine ⟨r, hr, ?_⟩
  have hreach : (stanzaSystem twoChips).ReachableUnder SuitableEvent
      ⟨r.owners, some (remoteFrom 0, r)⟩ := by
    refine .step (e := .fill (remoteFrom 0)) (.init (s := ⟨noOwners, none⟩)
      ⟨fun _ => rfl, rfl⟩) (.inr (.inr (.inl (by decide)))) ?_
    simp [stanzaSystem, step, hr]
  exact oneOwner_of_suitable hreach rfl

/-- With only the memory of chip 1 in use chip 0 takes it, and chip 1 falls back to it:
the entry of chip 1's thread is not filled. -/
theorem entry_not_filled :
    exists r, fillThreadContext (remoteFrom 1) noOwners = some r ∧ ¬ OneOwner (remoteFrom 1) r := by
  obtain ⟨r, hr⟩ : exists r, fillThreadContext (remoteFrom 1) noOwners = some r :=
    isSome_iff_exists.mp (by decide)
  have hvalues : (fillThreadContext (remoteFrom 1) noOwners).map (fun r =>
      (r.numThreads, (r.owners.thread 1).numSegs, (r.owners.thread 1).segDetails 0)) =
      some (2, 1, none) := by decide
  simp only [hr, map_some, some.injEq, Prod.mk.injEq] at hvalues
  refine ⟨r, hr, fun h => ?_⟩
  rcases h.filled 1 (by omega) 0 (by omega) with ⟨id, hid, _⟩
  rw [hvalues.2.2] at hid
  cases hid

end Htx.Hxemem64
