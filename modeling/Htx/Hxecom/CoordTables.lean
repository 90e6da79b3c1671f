import Htx.Hxecom.Coordinator

/-!
# The tables of the coordinator

The remote tables stay consistent in every run.  The numbers of the local exercisers do
not: when a server terminates, they are copied in the wrong direction, and the servers
entered behind it are paired with its exerciser.
-/

namespace Htx.Hxecom

open List Library Coord

/-!
# Deleting
-/

section

variable {α : Type} {table : List α} {index : Nat}

@[simp] theorem length_copyEntry (src dst : Nat) :
    (copyEntry table src dst).length = table.length := by
  unfold copyEntry
  split
  · exact length_set
  · rfl

theorem getElem?_copyEntry {src dst : Nat} (hsrc : src < table.length)
    (hdst : dst < table.length) (j : Nat) :
    (copyEntry table src dst)[j]? = if j = dst then table[src]? else table[j]? := by
  unfold copyEntry
  rw [getElem?_eq_getElem hsrc]
  show (table.set dst table[src])[j]? = _
  rw [getElem?_set]
  by_cases h : dst = j
  · rw [if_pos h, if_pos (h ▸ hdst), if_pos h.symm]
  · rw [if_neg h, if_neg (Ne.symm h)]

theorem copyDown_succ (n : Nat) : copyDown table index (n + 1) =
      copyEntry (copyDown table index n) (index + n + 1) (index + n) := by
  unfold copyDown
  rw [range'_1_concat, foldl_concat]

theorem copyUp_succ (n : Nat) : copyUp table index (n + 1) =
      copyEntry (copyUp table index n) (index + n) (index + n + 1) := by
  unfold copyUp
  rw [range'_1_concat, foldl_concat]

@[simp] theorem length_copyDown (n : Nat) : (copyDown table index n).length = table.length := by
  induction n with
  | zero => rfl
  | succ n ih => rw [copyDown_succ, length_copyEntry, ih]

@[simp] theorem length_copyUp (n : Nat) : (copyUp table index n).length = table.length := by
  induction n with
  | zero => rfl
  | succ n ih => rw [copyUp_succ, length_copyEntry, ih]

theorem getElem?_copyDown (n : Nat) (hn : index + n < table.length) (j : Nat) :
    (copyDown table index n)[j]? =
      if index ≤ j ∧ j < index + n then table[j + 1]? else table[j]? := by
  induction n generalizing j with
  | zero =>
    rw [if_neg (by omega)]
    rfl
  | succ n ih =>
    rw [copyDown_succ, getElem?_copyEntry (by rw [length_copyDown]; omega)
      (by rw [length_copyDown]; omega), ih (by omega), ih (by omega)]
    by_cases hj : j = index + n
    · rw [if_pos hj, if_neg (by omega), if_pos (by omega), hj]
    · rw [if_neg hj]
      congr 1
      simp only [eq_iff_iff]
      omega

theorem getElem?_copyUp (n : Nat) (hn : index + n < table.length) (j : Nat) :
    (copyUp table index n)[j]? =
      if index ≤ j ∧ j ≤ index + n then table[index]? else table[j]? := by
  induction n generalizing j with
  | zero =>
    by_cases hj : j = index
    · rw [if_pos (by omega), hj]
      rfl
    · rw [if_neg (by omega)]
      rfl
  | succ n ih =>
    rw [copyUp_succ, getElem?_copyEntry (by rw [length_copyUp]; omega)
      (by rw [length_copyUp]; omega), ih (by omega), ih (by omega),
      if_pos (show index ≤ index + n ∧ index + n ≤ index + n by omega)]
    by_cases hj : j = index + n + 1
    · rw [if_pos hj, if_pos (by omega)]
    · rw [if_neg hj]
      congr 1
      simp only [eq_iff_iff]
      omega

theorem shiftDown_eq_eraseIdx (h : index < table.length) :
    shiftDown table index = table.eraseIdx index := by
  apply ext_getElem?
  intro j
  unfold shiftDown
  rw [getElem?_dropLast, getElem?_copyDown _ (by omega), getElem?_eraseIdx,
    length_copyDown]
  by_cases hj : j < index
  · rw [if_pos (by omega), if_neg (by omega), if_pos hj]
  · rw [if_neg hj]
    by_cases hlast : j < table.length - 1
    · rw [if_pos hlast, if_pos (by omega)]
    · rw [if_neg hlast, getElem?_eq_none (by omega)]

theorem getElem?_shiftUp (h : index < table.length) (j : Nat) : (shiftUp table index)[j]? =
      if table.length - 1 ≤ j then none
      else if j ≤ index then table[j]? else table[index]? := by
  unfold shiftUp
  rw [getElem?_dropLast, getElem?_copyUp _ (by omega), length_copyUp]
  by_cases hlast : table.length - 1 ≤ j
  · rw [if_pos hlast, if_neg (by omega)]
  · rw [if_neg hlast, if_pos (by omega)]
    rcases lt_trichotomy j index with hj | hj | hj
    · rw [if_neg (by omega), if_pos (by omega)]
    · rw [if_pos (by omega), if_pos (by omega), hj]
    · rw [if_pos (by omega), if_neg (by omega)]

end

variable {index : Nat}

theorem removeLocal_eq {locals : List LocalEntry} {entry : LocalEntry}
    (h : locals[index]? = some entry) :
    removeLocal locals index = locals.take index ++
        (locals.drop (index + 1)).map fun l => ⟨l.server, entry.exerNo⟩ := by
  have hlt : index < locals.length := (List.getElem?_eq_some_iff.mp h).1
  apply ext_getElem?
  intro j
  unfold removeLocal
  rw [getElem?_zipWith, shiftDown_eq_eraseIdx (by rwa [length_map]),
    getElem?_shiftUp (by rwa [length_map]), getElem?_eraseIdx, length_map]
  simp only [getElem?_map, h]
  by_cases hj : j < index
  · rw [if_pos hj, if_neg (by omega), if_pos hj.le,
      getElem?_append_left (by rw [length_take]; omega), getElem?_take_of_lt hj]
    cases locals[j]? <;> rfl
  · have hsum : index + 1 + (j - index) = j + 1 := by omega
    rw [if_neg hj, getElem?_append_right (by rw [length_take]; omega),
      getElem?_map, getElem?_drop, length_take, min_eq_left hlt.le, hsum]
    by_cases hlast : locals.length - 1 ≤ j
    · rw [if_pos hlast, getElem?_eq_none (by omega)]
      rfl
    · have hread : (if j ≤ index then locals[j]?.map LocalEntry.exerNo
          else some entry.exerNo) = some entry.exerNo := by
        split
        · rw [show j = index by omega, h]
          rfl
        · rfl
      rw [if_neg hlast, Option.map_some, hread]
      cases locals[j + 1]? <;> rfl

/-!
# Consistent tables
-/

structure LocalsPaired (exer : List Exer) (locals : List LocalEntry) : Prop where
  paired : forall entry, entry ∈ locals ->
    exists e, exer[entry.exerNo]? = some e ∧ e.serverID.port = entry.server.port
  count : locals.length ≤ MAXLOCAL

structure RemotesListed (host : Host) (ids : List ServerId) (addrs : List InAddr) : Prop where
  distinct : (ids.map ServerId.sock).Nodup
  other : forall id, id ∈ ids -> id.sock.addr ≠ host.localAddr ∧ id.sock.addr ∈ host.otherIps
  addrs_distinct : addrs.Nodup
  addrs_exact : forall addr, addr ∈ addrs <-> exists id, id ∈ ids ∧ id.sock.addr = addr
  count : ids.length ≤ MAXREMOTE
  addrs_count : addrs.length ≤ MAXADDR

structure Consistent (host : Host) (s : Coord) : Prop where
  locals : LocalsPaired s.exer s.locals
  remotes : RemotesListed host s.remoteIDs s.remoteAddr

/-!
# The local table
-/

theorem exer_of_findIdx {exer : List Exer} {port index : Nat}
    (hfind : (exer.findIdx? fun e => e.serverID.port = port) = some index) :
    exists e, exer[index]? = some e ∧ e.serverID.port = port := by
  obtain ⟨hlt, hport, -⟩ := findIdx?_eq_some_iff_getElem.mp hfind
  exact ⟨exer[index], getElem?_eq_getElem hlt, of_decide_eq_true hport⟩

variable {s : Coord}

namespace LocalsPaired

variable {exer : List Exer} {locals : List LocalEntry}

theorem enter (h : LocalsPaired exer locals) {id : ServerId}
    (hfind : (exer.findIdx? fun e => e.serverID.port = id.port) = some index)
    (hroom : ¬ MAXLOCAL ≤ locals.length) : LocalsPaired exer (locals ++ [⟨id, index⟩]) where
  paired := by
    intro entry hentry
    rcases mem_append.mp hentry with hold | hnew
    · exact h.paired entry hold
    · obtain rfl := mem_singleton.mp hnew
      exact exer_of_findIdx hfind
  count := by
    rw [length_append, length_singleton]
    omega

theorem modify (h : LocalsPaired exer locals) {f : Exer -> Exer}
    (hf : forall e, (f e).serverID = e.serverID) (n : Nat) :
    LocalsPaired (exer.modify n f) locals where
  paired := by
    intro entry hentry
    obtain ⟨e, he, hport⟩ := h.paired entry hentry
    rw [getElem?_modify, he]
    refine ⟨if n = entry.exerNo then f e else e, rfl, ?_⟩
    split
    · rw [hf e, hport]
    · exact hport
  count := h.count

theorem setInit (h : LocalsPaired s.exer s.locals) (index : Nat) :
    LocalsPaired (s.setInit index).exer (s.setInit index).locals :=
  h.modify (f := fun e => { e with serverIDinit := true }) (fun _ => rfl) index

theorem die (h : LocalsPaired s.exer s.locals) (exerNo : Nat) :
    LocalsPaired (s.die exerNo).exer (s.die exerNo).locals :=
  h.modify (f := fun e => { e with deadFlag := true }) (fun _ => rfl) exerNo

theorem append (h : LocalsPaired exer locals) (e : Exer) : LocalsPaired (exer ++ [e]) locals where
  paired := by
    intro entry hentry
    obtain ⟨e', he, hport⟩ := h.paired entry hentry
    have hlt := (List.getElem?_eq_some_iff.mp he).1
    exact ⟨e', by rw [List.getElem?_append_left hlt, he], hport⟩
  count := h.count

theorem remove_iff (h : LocalsPaired exer locals) {entry : LocalEntry}
    (hentry : locals[index]? = some entry) :
    LocalsPaired exer (removeLocal locals index) <->
      forall l, l ∈ locals.drop (index + 1) -> l.server.port = entry.server.port := by
  obtain ⟨e, he, hport⟩ := h.paired entry (mem_of_getElem? hentry)
  rw [removeLocal_eq hentry]
  constructor
  · intro hnew l hl
    obtain ⟨e', he', hport'⟩ := hnew.paired ⟨l.server, entry.exerNo⟩
      (mem_append_right _ (mem_map_of_mem hl))
    obtain rfl : e = e' := Option.some.inj (he.symm.trans he')
    exact hport'.symm.trans hport
  · intro hlater
    constructor
    · intro l hl
      rcases mem_append.mp hl with hfront | hback
      · exact h.paired l (mem_of_mem_take hfront)
      · obtain ⟨l', hl', rfl⟩ := mem_map.mp hback
        exact ⟨e, he, hport.trans (hlater l' hl').symm⟩
    · have hcount := h.count
      rw [length_append, length_take, length_map, length_drop]
      omega

end LocalsPaired

/-!
# The remote tables
-/

def withAddr (addrs : List InAddr) (addr : InAddr) : List InAddr :=
  if addr ∈ addrs then addrs else addrs ++ [addr]

theorem mem_withAddr {addrs : List InAddr} {addr a : InAddr} :
    a ∈ withAddr addrs addr <-> a ∈ addrs ∨ a = addr := by
  unfold withAddr
  split
  · rename_i hmem
    exact ⟨.inl, fun h => h.elim (fun ha => ha) (fun ha => ha ▸ hmem)⟩
  · rw [mem_append, mem_singleton]

theorem nodup_withAddr {addrs : List InAddr} (h : addrs.Nodup) (addr : InAddr) :
    (withAddr addrs addr).Nodup := by
  unfold withAddr
  split
  · exact h
  · rename_i hnew
    rw [nodup_append']
    exact ⟨h, nodup_singleton addr, disjoint_singleton.mpr hnew⟩

theorem length_withAddr_le (addrs : List InAddr) (addr : InAddr) :
    (withAddr addrs addr).length ≤ addrs.length + 1 := by
  unfold withAddr
  split
  · exact Nat.le_succ _
  · rw [length_append, length_singleton]

namespace Coord

structure News (host : Host) (s : Coord) (id : ServerId) : Prop where
  remote : id.sock.addr ≠ host.localAddr
  fresh : forall r, r ∈ s.remoteIDs -> r.sock ≠ id.sock
  other : id.sock.addr ∈ host.otherIps
  room : s.remoteIDs.length ≠ MAXREMOTE

def takeIn (s : Coord) (id : ServerId) : Coord :=
  { s with
    remoteIDs := s.remoteIDs ++ [id]
    remoteAddr := withAddr s.remoteAddr id.sock.addr }

variable {host : Host} {s : Coord} {id : ServerId}

theorem remServer_of_not_news (rc : Nat -> SendRc) (h : ¬ News host s id) :
    s.remServer host rc id = ⟨s, [], false⟩ := by
  unfold remServer
  split
  · rfl
  · rename_i hremote
    split
    · rfl
    · rename_i hfresh
      split
      · rfl
      · rename_i hother
        rw [if_pos]
        by_contra hroom
        apply h
        refine ⟨hremote, ?_, not_not.mp hother, hroom⟩
        intro r hr hsock
        exact hfresh (any_eq_true.mpr ⟨r, hr, decide_eq_true hsock⟩)

theorem remServer_of_not_shouldFork (rc : Nat -> SendRc)
    (h : shouldFork host s (.remServer id) = false) : s.remServer host rc id = ⟨s, [], false⟩ := by
  refine remServer_of_not_news rc fun hnews => ?_
  have hold : (decide (id.sock.addr ≠ host.localAddr) &&
      !s.remoteIDs.any fun r => r.sock = id.sock) = false := h
  rw [decide_eq_true hnews.remote, Bool.true_and, Bool.not_eq_false'] at hold
  obtain ⟨r, hr, hsock⟩ := any_eq_true.mp hold
  exact hnews.fresh r hr (of_decide_eq_true hsock)

theorem newRemoteAddr_of_room (hremote : id.sock.addr ≠ host.localAddr)
    (hroom : s.remoteAddr.length < MAXADDR) :
    (s.enterRemote id).newRemoteAddr host id.sock.addr =
      some (decide (id.sock.addr ∉ s.remoteAddr), s.takeIn id) := by
  have hroom' : ¬ MAXADDR ≤ (s.enterRemote id).remoteAddr.length := not_le.mpr hroom
  unfold newRemoteAddr
  rw [if_neg (Ne.symm hremote)]
  show (if id.sock.addr ∈ s.remoteAddr then _ else _) = _
  unfold takeIn withAddr
  by_cases hmem : id.sock.addr ∈ s.remoteAddr
  · rw [if_pos hmem, if_pos hmem, decide_eq_false (not_not.mpr hmem)]
    rfl
  · rw [if_neg hmem, if_neg hmem, decide_eq_true hmem, if_neg hroom']
    rfl

theorem remServer_of_news (rc : Nat -> SendRc) (h : News host s id)
    (hroom : s.remoteAddr.length < MAXADDR) :
    s.remServer host rc id =
      let out := host.sendAll rc 0
        ((s.takeIn id).remServerMsgs host (decide (id.sock.addr ∉ s.remoteAddr)) id)
      ⟨s.takeIn id, out.1, !out.2⟩ := by
  have hfresh : (s.remoteIDs.any fun r => r.sock = id.sock) = false := by
    rw [any_eq_false]
    intro r hr
    exact fun heq => h.fresh r hr (of_decide_eq_true heq)
  unfold remServer
  rw [if_neg h.remote, hfresh, if_neg Bool.false_ne_true, if_neg (not_not.mpr h.other),
    if_neg h.room, newRemoteAddr_of_room h.remote hroom]

end Coord

namespace RemotesListed

variable {host : Host} {ids : List ServerId} {addrs : List InAddr}

theorem addrs_room (h : RemotesListed host ids addrs) : addrs.length < MAXADDR := by
  have hsub : addrs ⊆ host.otherIps := by
    intro addr haddr
    obtain ⟨id, hid, rfl⟩ := (h.addrs_exact addr).mp haddr
    exact (h.other id hid).2
  calc addrs.length ≤ host.otherIps.length := (Nodup.subperm h.addrs_distinct hsub).length_le
    _ ≤ MAXOTHERS := host.hostCnt_le
    _ < MAXADDR := by decide

theorem takeIn (h : RemotesListed host s.remoteIDs s.remoteAddr) {id : ServerId}
    (hnews : s.News host id) :
    RemotesListed host (s.takeIn id).remoteIDs (s.takeIn id).remoteAddr where
  distinct := by
    show ((s.remoteIDs ++ [id]).map ServerId.sock).Nodup
    rw [map_append, map_singleton, nodup_append']
    refine ⟨h.distinct, nodup_singleton _, ?_⟩
    intro sock hold hnew
    obtain ⟨r, hr, rfl⟩ := mem_map.mp hold
    exact hnews.fresh r hr (mem_singleton.mp hnew)
  other := by
    intro r hr
    rcases mem_append.mp hr with hold | hnew
    · exact h.other r hold
    · obtain rfl := mem_singleton.mp hnew
      exact ⟨hnews.remote, hnews.other⟩
  addrs_distinct := nodup_withAddr h.addrs_distinct _
  addrs_exact := by
    intro addr
    show addr ∈ withAddr s.remoteAddr id.sock.addr <->
      exists r, r ∈ s.remoteIDs ++ [id] ∧ r.sock.addr = addr
    rw [mem_withAddr, h.addrs_exact addr]
    constructor
    · rintro (⟨r, hr, rfl⟩ | rfl)
      · exact ⟨r, mem_append_left _ hr, rfl⟩
      · exact ⟨id, mem_append_right _ (mem_singleton_self id), rfl⟩
    · rintro ⟨r, hr, rfl⟩
      rcases mem_append.mp hr with hold | hnew
      · exact .inl ⟨r, hold, rfl⟩
      · exact .inr (congrArg (fun r => r.sock.addr) (mem_singleton.mp hnew))
  count := by
    show (s.remoteIDs ++ [id]).length ≤ MAXREMOTE
    rw [length_append, length_singleton]
    exact Nat.succ_le_of_lt (lt_of_le_of_ne h.count hnews.room)
  addrs_count := (length_withAddr_le _ _).trans h.addrs_room

theorem mem_eraseIdx {α : Type} [DecidableEq α] {xs : List α} (hnodup : xs.Nodup)
    {x y : α} (hx : xs[index]? = some x) : y ∈ xs.eraseIdx index <-> y ≠ x ∧ y ∈ xs := by
  obtain ⟨hlt, rfl⟩ := List.getElem?_eq_some_iff.mp hx
  rw [← Nodup.erase_getElem hnodup index hlt, hnodup.mem_erase_iff]

section

variable (h : RemotesListed host ids addrs) {index : Nat} {r : ServerId}
  (hr : ids[index]? = some r)

include h

theorem erase {rest : List InAddr} (hrest : rest.Sublist addrs)
    (hexact : forall addr, addr ∈ rest <->
      exists id, id ∈ ids.eraseIdx index ∧ id.sock.addr = addr) :
    RemotesListed host (ids.eraseIdx index) rest where
  distinct := h.distinct.sublist ((eraseIdx_sublist ids index).map _)
  other := fun id hid => h.other id (mem_of_mem_eraseIdx hid)
  addrs_distinct := h.addrs_distinct.sublist hrest
  addrs_exact := hexact
  count := (length_eraseIdx_le ids index).trans h.count
  addrs_count := hrest.length_le.trans h.addrs_count

include hr

theorem erase_of_shared {r' : ServerId} (hr' : r' ∈ ids.eraseIdx index)
    (hshared : r'.sock.addr = r.sock.addr) : RemotesListed host (ids.eraseIdx index) addrs := by
  refine h.erase (Sublist.refl addrs) fun addr => ?_
  rw [h.addrs_exact addr]
  constructor
  · rintro ⟨id, hid, rfl⟩
    by_cases heq : id = r
    · exact ⟨r', hr', heq ▸ hshared⟩
    · exact ⟨id, (mem_eraseIdx h.distinct.of_map hr).mpr ⟨heq, hid⟩, rfl⟩
  · rintro ⟨id, hid, rfl⟩
    exact ⟨id, mem_of_mem_eraseIdx hid, rfl⟩

theorem erase_of_last {k : Nat} (haddr : addrs[k]? = some r.sock.addr)
    (hlast : forall r', r' ∈ ids.eraseIdx index -> r'.sock.addr ≠ r.sock.addr) :
    RemotesListed host (ids.eraseIdx index) (addrs.eraseIdx k) := by
  refine h.erase (eraseIdx_sublist addrs k) fun addr => ?_
  rw [mem_eraseIdx h.addrs_distinct haddr, h.addrs_exact addr]
  constructor
  · rintro ⟨hne, id, hid, rfl⟩
    refine ⟨id, (mem_eraseIdx h.distinct.of_map hr).mpr ⟨?_, hid⟩, rfl⟩
    rintro rfl
    exact hne rfl
  · rintro ⟨id, hid, rfl⟩
    exact ⟨hlast id hid, id, mem_of_mem_eraseIdx hid, rfl⟩

end

end RemotesListed

namespace Coord

variable {s : Coord} {id : ServerId}

theorem removeRemoteAddr_eq {addr : InAddr} (h : addr ∈ s.remoteAddr) :
    exists k, s.remoteAddr[k]? = some addr ∧
      s.removeRemoteAddr addr = { s with remoteAddr := s.remoteAddr.eraseIdx k } := by
  unfold removeRemoteAddr
  split
  · rename_i hnone
    rw [findIdx?_eq_none_iff] at hnone
    exact absurd (hnone addr h) (by simp)
  · rename_i k hfind
    obtain ⟨hlt, hk, -⟩ := findIdx?_eq_some_iff_getElem.mp hfind
    refine ⟨k, ?_, by rw [shiftDown_eq_eraseIdx hlt]⟩
    rw [getElem?_eq_getElem hlt, of_decide_eq_true hk]

theorem removeRemoteAddr_frame (addr : InAddr) :
    (s.removeRemoteAddr addr).locals = s.locals ∧ (s.removeRemoteAddr addr).exer = s.exer := by
  unfold removeRemoteAddr
  split <;> exact ⟨rfl, rfl⟩

theorem remoteExerTerm_frame : (s.remoteExerTerm id).coord.locals = s.locals ∧
    (s.remoteExerTerm id).coord.exer = s.exer := by
  unfold remoteExerTerm
  split
  · exact ⟨rfl, rfl⟩
  · dsimp only
    split
    · exact ⟨rfl, rfl⟩
    · exact removeRemoteAddr_frame _

end Coord

theorem RemotesListed.remove {host : Host}
    (h : RemotesListed host s.remoteIDs s.remoteAddr) (id : ServerId) :
    RemotesListed host (s.remoteExerTerm id).coord.remoteIDs
      (s.remoteExerTerm id).coord.remoteAddr := by
  unfold remoteExerTerm
  split
  · exact h
  · rename_i index hfind
    obtain ⟨hlt, hsock, -⟩ := findIdx?_eq_some_iff_getElem.mp hfind
    have hr := getElem?_eq_getElem hlt
    have hsame : s.remoteIDs[index].sock.addr = id.sock.addr :=
      congrArg SockAddr.addr (of_decide_eq_true hsock)
    simp only [shiftDown_eq_eraseIdx hlt]
    split
    · rename_i hany
      obtain ⟨r', hr', haddr⟩ := any_eq_true.mp hany
      exact h.erase_of_shared hr hr' ((of_decide_eq_true haddr).trans hsame.symm)
    · rename_i hany
      have hmem : id.sock.addr ∈ s.remoteAddr :=
        (h.addrs_exact _).mpr ⟨_, getElem_mem hlt, hsame⟩
      obtain ⟨k, hk, heq⟩ := removeRemoteAddr_eq
        (s := { s with remoteIDs := s.remoteIDs.eraseIdx index }) hmem
      rw [heq]
      refine h.erase_of_last hr (by rw [hsame]; exact hk) ?_
      intro r' hr' haddr
      exact hany (any_eq_true.mpr ⟨r', hr', decide_eq_true (haddr.trans hsame)⟩)

/-!
# One handler
-/

def CoordEvent.EndsLast (s : Coord) : CoordEvent -> Prop
  | .localExerTerm id =>
    s.locals.Pairwise fun a b => a.server.port = id.port -> b.server.port = id.port
  | _ => True

theorem pairwise_port_iff {locals : List LocalEntry} {id : ServerId}
    (hfind : (locals.findIdx? fun entry => entry.server.port = id.port) = some index) :
    (locals.Pairwise fun a b => a.server.port = id.port -> b.server.port = id.port) <->
      forall l, l ∈ locals.drop (index + 1) -> l.server.port = id.port := by
  obtain ⟨hlt, hport, hbefore⟩ := findIdx?_eq_some_iff_getElem.mp hfind
  have hport' : locals[index].server.port = id.port := of_decide_eq_true hport
  have hsplit : locals = locals.take index ++ locals[index] :: locals.drop (index + 1) := by
    rw [← drop_eq_getElem_cons hlt, take_append_drop]
  constructor
  · intro h l hl
    rw [hsplit, pairwise_append, pairwise_cons] at h
    exact h.2.1.1 l hl hport'
  · intro h
    rw [hsplit, pairwise_append, pairwise_cons]
    have hfront : forall a, a ∈ locals.take index -> a.server.port ≠ id.port := by
      intro a ha
      obtain ⟨j, hj, rfl⟩ := mem_take_iff_getElem.mp ha
      have hnot := hbefore j (by omega)
      exact fun heq => hnot (decide_eq_true heq)
    refine ⟨?_, ⟨fun l hl _ => h l hl, ?_⟩, fun a ha _ _ heq => absurd heq (hfront a ha)⟩
    · exact pairwise_of_forall_mem_list fun a ha _ _ heq => absurd heq (hfront a ha)
    · exact pairwise_of_forall_mem_list fun _ _ b hb _ => h b hb

section

variable {host : Host} {s : Coord}

theorem localServer_consistent (rc : Nat -> SendRc) (h : Consistent host s) (id : ServerId) :
    Consistent host (s.localServer host rc id).coord := by
  unfold localServer
  split
  · exact h
  · rename_i index hfind
    split
    · exact h
    · rename_i hroom
      have hlocals : LocalsPaired s.exer (s.enterLocal index id).locals :=
        h.locals.enter hfind hroom
      show Consistent host (Handled.coord (if _ then _ else _))
      split
      · exact ⟨hlocals.setInit index, h.remotes⟩
      · exact ⟨hlocals, h.remotes⟩

theorem remServer_consistent (rc : Nat -> SendRc) (h : Consistent host s) (id : ServerId) :
    Consistent host (s.remServer host rc id).coord := by
  by_cases hnews : s.News host id
  · rw [remServer_of_news rc hnews h.remotes.addrs_room]
    exact ⟨h.locals, h.remotes.takeIn hnews⟩
  · rw [remServer_of_not_news rc hnews]
    exact h

theorem remoteExerTerm_consistent (h : Consistent host s) (id : ServerId) :
    Consistent host (s.remoteExerTerm id).coord := by
  refine ⟨?_, h.remotes.remove id⟩
  rw [remoteExerTerm_frame.1, remoteExerTerm_frame.2]
  exact h.locals

theorem localExerTerm_consistent_iff (rc : Nat -> SendRc) (h : Consistent host s) (id : ServerId) :
    Consistent host (s.localExerTerm host rc id).coord <->
      (CoordEvent.localExerTerm id).EndsLast s := by
  show _ <-> s.locals.Pairwise fun a b => a.server.port = id.port -> b.server.port = id.port
  unfold localExerTerm
  split
  · rename_i hnone
    rw [findIdx?_eq_none_iff] at hnone
    refine ⟨fun _ => ?_, fun _ => h⟩
    exact pairwise_of_forall_mem_list fun a ha _ _ heq =>
      absurd heq (of_decide_eq_false (hnone a ha))
  · rename_i index hfind
    obtain ⟨hlt, hport, -⟩ := findIdx?_eq_some_iff_getElem.mp hfind
    have hiff := h.locals.remove_iff (getElem?_eq_getElem hlt)
    rw [of_decide_eq_true hport] at hiff
    rw [pairwise_port_iff hfind, ← hiff]
    exact ⟨fun hc => hc.locals, fun hl => ⟨hl, h.remotes⟩⟩

theorem handle_consistent_iff (rc : Nat -> SendRc) (h : Consistent host s) (event : CoordEvent) :
    Consistent host (s.handle host rc event).coord <-> event.EndsLast s := by
  cases event with
  | localServer id => exact iff_of_true (localServer_consistent rc h id) trivial
  | remServer id => exact iff_of_true (remServer_consistent rc h id) trivial
  | localExerTerm id => exact localExerTerm_consistent_iff rc h id
  | remoteExerTerm id => exact iff_of_true (remoteExerTerm_consistent h id) trivial
  | broadcastLocals => exact iff_of_true h trivial
  | start id => exact iff_of_true ⟨h.locals.append _, h.remotes⟩ trivial
  | die exerNo => exact iff_of_true ⟨h.locals.die exerNo, h.remotes⟩ trivial

end

/-!
# Runs
-/

def coordSystem (host : Host) : EventSystem Coord (CoordEvent × (Nat -> SendRc)) where
  Initial s := exists exer, s = initial exer
  step s e := some (s.handle host e.2 e.1).coord

theorem initial_consistent (host : Host) (exer : List Exer) :
    Consistent host (initial exer) where
  locals := ⟨fun _ h => absurd h not_mem_nil, Nat.zero_le _⟩
  remotes :=
    { distinct := nodup_nil
      other := fun _ h => absurd h not_mem_nil
      addrs_distinct := nodup_nil
      addrs_exact := fun _ =>
        ⟨fun h => absurd h not_mem_nil, fun ⟨_, h, _⟩ => absurd h not_mem_nil⟩
      count := Nat.zero_le _
      addrs_count := Nat.zero_le _ }

/-- The tables are consistent all along a run exactly if no local server of the run
terminates before one of another port that was entered behind it. -/
theorem tables_consistent_iff (host : Host) (exer : List Exer)
    (events : List (CoordEvent × (Nat -> SendRc))) :
    (coordSystem host).Along (Consistent host) (initial exer) events <->
      (coordSystem host).Admits (fun s e => e.1.EndsLast s) (initial exer) events := by
  refine EventSystem.along_iff_admits (fun _ _ => ⟨_, rfl⟩) ?_ (initial_consistent host exer) events
  rintro s ⟨event, rc⟩ t hs hst
  obtain rfl := Option.some.inj hst
  exact handle_consistent_iff rc hs event

def Bounded (host : Host) (s : Coord) : Prop :=
  RemotesListed host s.remoteIDs s.remoteAddr ∧ s.locals.length ≤ MAXLOCAL

theorem Bounded.handle {host : Host} {s : Coord} (h : Bounded host s) (rc : Nat -> SendRc)
    (event : CoordEvent) : Bounded host (s.handle host rc event).coord := by
  cases event with
  | localServer id =>
    simp only [Coord.handle, localServer]
    split
    · exact h
    · rename_i index _
      split
      · exact h
      · rename_i hroom
        have hlen : (s.enterLocal index id).locals.length ≤ MAXLOCAL := by
          rw [enterLocal, length_append]
          exact Nat.lt_of_not_le hroom
        split <;> exact ⟨h.1, hlen⟩
  | remServer id =>
    by_cases hnews : s.News host id
    · rw [Coord.handle, remServer_of_news rc hnews h.1.addrs_room]
      exact ⟨h.1.takeIn hnews, h.2⟩
    · rw [Coord.handle, remServer_of_not_news rc hnews]
      exact h
  | localExerTerm id =>
    simp only [Coord.handle, localExerTerm]
    split
    · exact h
    · refine ⟨h.1, le_trans ?_ h.2⟩
      simp [removeLocal, shiftDown]
  | remoteExerTerm id =>
    refine ⟨h.1.remove id, ?_⟩
    rw [Coord.handle, remoteExerTerm_frame.1]
    exact h.2
  | _ => exact h

/-- Whatever messages arrive and however the sends end, the remote tables name every server and
every address once, and no table overflows. -/
theorem tables_bounded (host : Host) (exer : List Exer)
    (events : List (CoordEvent × (Nat -> SendRc))) :
    (coordSystem host).Along (Bounded host) (initial exer) events := by
  refine EventSystem.Reachable.along (S := coordSystem host) (fun s hs => ?_) (.init ⟨exer, rfl⟩)
    events
  induction hs with
  | init hs =>
    obtain ⟨exer, rfl⟩ := hs
    exact ⟨(initial_consistent host exer).remotes, Nat.zero_le _⟩
  | step _ _ hst ih =>
    obtain rfl := Option.some.inj hst
    exact ih.handle _ _

def aloneHost : Host where
  oneSysFlag := true
  otherIps := []
  hostCnt_le := Nat.zero_le _
  mynetid := 1
  localAddr := ⟨10, 0, 0, 1⟩
  comStreamPort := 5101
  broadcastDest := ⟨⟨10, 0, 0, 255⟩, 5102⟩

def serverOn (addr : InAddr) (port : Nat) : ServerId :=
  ⟨1, 1, 3, 3, 0, ⟨addr, port⟩⟩

def serverAt (port : Nat) : ServerId :=
  serverOn ⟨10, 0, 0, 1⟩ port

def allSent : Nat -> SendRc :=
  fun _ => .sent

/-- Two servers register and the first one terminates: the second one is left with the
exerciser of the first. -/
theorem second_server_mispaired :
    exists s, (coordSystem aloneHost).run
        (initial [⟨serverAt 40001, false, false⟩, ⟨serverAt 40002, false, false⟩])
        [(.localServer (serverAt 40001), allSent), (.localServer (serverAt 40002), allSent),
          (.localExerTerm (serverAt 40001), allSent)] = some s ∧
      s.locals = [⟨serverAt 40002, 0⟩] ∧
      (s.exer[0]?.map fun e => e.serverID.port) = some 40001 ∧
      ¬ Consistent aloneHost s := by
  refine ⟨⟨[], [], [⟨serverAt 40002, 0⟩],
    [⟨serverAt 40001, false, true⟩, ⟨serverAt 40002, false, true⟩]⟩, ?_, rfl, rfl, ?_⟩
  · rfl
  · intro h
    obtain ⟨e, he, hport⟩ := h.locals.paired ⟨serverAt 40002, 0⟩ (mem_singleton_self _)
    obtain rfl := Option.some.inj he
    exact absurd hport (by decide)

end Htx.Hxecom
