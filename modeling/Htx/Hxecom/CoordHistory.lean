import Htx.Hxecom.CoordTables

/-!
# Who is told of whom

All messages are sent successfully here, and every server registers once.  A new local
server and the others are told of each other by `LocalServer`, and all of them of a new
remote server by `RemServer`.
-/

namespace Htx.Hxecom

open Library List Coord InAddr ServerId LocalEntry

/-!
# Messages of a run
-/

namespace Coord

variable (host : Host)

def after (s : Coord) (events : List CoordEvent) : Coord :=
  events.foldl (fun s e => (s.handle host allSent e).coord) s

def sentOn : Coord -> List CoordEvent -> List Sent
  | _, [] => []
  | s, e :: rest =>
    (s.handle host allSent e).sent ++ sentOn (s.handle host allSent e).coord rest

theorem after_append (s : Coord) (front back : List CoordEvent) :
    s.after host (front ++ back) = (s.after host front).after host back := by
  exact foldl_append

theorem sentOn_append (s : Coord) (front back : List CoordEvent) : s.sentOn host (front ++ back) =
      s.sentOn host front ++ (s.after host front).sentOn host back := by
  induction front generalizing s with
  | nil => rfl
  | cons e rest ih =>
    show _ ++ sentOn host _ (rest ++ back) = (_ ++ sentOn host _ rest) ++ _
    rw [ih, append_assoc]
    rfl

def Alive (s : Coord) (id : ServerId) : Prop :=
  (exists entry, entry ∈ s.locals ∧ entry.server = id) ∧
    exists e, (s.exer.find? fun e => e.serverID.port = id.port) = some e ∧ e.deadFlag = false

end Coord

/-- What registering comes to if the server is known and there is room for it. -/
structure Coord.Enters (host : Host) (s : Coord) (id : ServerId) (index : Nat) : Prop where
  number : (s.exer.findIdx? fun e => e.serverID.port = id.port) = some index
  handled : s.localServer host allSent id = ⟨(s.enterLocal index id).setInit index,
    ((s.enterLocal index id).localServerMsgs host index id).filter
      (fun m => !host.refuses m.dest) ++ host.broadcastMsg .remoteServer id, false⟩

def timesSent (log : List Sent) (dest : SockAddr) (msgType : MsgType) (server : ServerId) : Nat :=
  log.count ⟨.stream, dest, msgType, server⟩

def CoordEvent.registered : CoordEvent -> Option ServerId
  | .localServer id => some id
  | _ => none

structure LocalsTold (host : Host) (s : Coord) (events : List CoordEvent) : Prop where
  both : forall front a b back, events = front ++ .localServer b :: back ->
    (s.after host front).Alive a -> (s.after host (front ++ [.localServer b])).Alive b ->
    timesSent (s.sentOn host events) a.sock .localServer b = 1 ∧
      timesSent (s.sentOn host events) b.sock .localServer a = 1
  notItself : forall id, timesSent (s.sentOn host events) id.sock .localServer id = 0

structure RemotesTold (host : Host) (s : Coord) (events : List CoordEvent) : Prop where
  known : forall front b back r, events = front ++ .localServer b :: back ->
    (s.after host (front ++ [.localServer b])).Alive b -> r ∈ (s.after host front).remoteIDs ->
    timesSent (s.sentOn host events) b.sock .remoteServer r = 1
  new : forall front a r back, events = front ++ .remServer r :: back ->
    (s.after host front).Alive a -> r ∉ (s.after host front).remoteIDs ->
    r ∈ (s.after host (front ++ [.remServer r])).remoteIDs ->
    timesSent (s.sentOn host events) a.sock .remoteServer r = 1

def FirstOfHost (host : Host) (s : Coord) (r : ServerId) : Prop :=
  r.sock.addr ∉ s.remoteAddr ∧ r.sock.addr ∈ (s.after host [.remServer r]).remoteAddr

def PassedOn (host : Host) (s : Coord) (events : List CoordEvent) : Prop :=
  forall front r back, events = front ++ .remServer r :: back ->
    FirstOfHost host (s.after host front) r ->
    (forall addr, addr ∈ (s.after host (front ++ [.remServer r])).remoteAddr ->
      addr ≠ r.sock.addr ->
      timesSent (s.sentOn host events) ⟨addr, host.comStreamPort⟩ .remoteServer r = 1) ∧
    timesSent (s.sentOn host events) ⟨r.sock.addr, host.comStreamPort⟩ .remoteServer r = 0

structure Course (events : List CoordEvent) : Prop where
  once : ((events.filterMap CoordEvent.registered).map ServerId.port).Nodup
  remain : forall id, .remoteExerTerm id ∉ events

def Coord.entryAtNumber (s : Coord) (id : ServerId) : Option LocalEntry :=
  (s.exer.findIdx? fun e => e.serverID.port = id.port).bind fun index => s.locals[index]?

/-- What a step has to meet: a new server has an address of this host to which messages are
sent, and in a test of several systems no server that listens stands at the position that
is the number of its exerciser; a local server that terminates is the last one. -/
def CoordEvent.Meets (host : Host) (s : Coord) : CoordEvent -> Prop
  | .localServer id =>
    id.sock.addr ∉ host.otherIps ∧ host.refuses id.sock = false ∧ (host.oneSysFlag = true ∨
        forall entry, entry ∈ s.entryAtNumber id -> s.listens entry = false)
  | .localExerTerm id => (CoordEvent.localExerTerm id).EndsLast s
  | _ => True

/-!
# The table of exercisers
-/

def KeepsServers (exer exer' : List Exer) : Prop :=
  forall (n : Nat) (e : Exer), exer[n]? = some e ->
    exists e', exer'[n]? = some e' ∧ e'.serverID = e.serverID ∧
      (e.serverIDinit = true -> e'.serverIDinit = true)

section

variable {exer exer' : List Exer}

theorem KeepsServers.findIdx? (h : KeepsServers exer exer') {port n : Nat}
    (hfind : (exer.findIdx? fun e => e.serverID.port = port) = some n) :
    (exer'.findIdx? fun e => e.serverID.port = port) = some n := by
  rw [findIdx?_eq_some_iff_getElem] at hfind ⊢
  obtain ⟨hlt, hport, hbefore⟩ := hfind
  have hsame : forall j (hj : j < exer.length), exists hj' : j < exer'.length,
      exer'[j].serverID = exer[j].serverID := by
    intro j hj
    obtain ⟨e', he', hid, -⟩ := h j exer[j] (getElem?_eq_getElem hj)
    obtain ⟨hj', rfl⟩ := List.getElem?_eq_some_iff.mp he'
    exact ⟨hj', hid⟩
  obtain ⟨hlt', hid⟩ := hsame n hlt
  refine ⟨hlt', by rw [hid]; exact hport, ?_⟩
  intro j hj
  obtain ⟨_, hid'⟩ := hsame j (hj.trans hlt)
  rw [hid']
  exact hbefore j hj

theorem keepsServers_modify {f : Exer -> Exer} (hid : forall e, (f e).serverID = e.serverID)
    (hinit : forall e, e.serverIDinit = true -> (f e).serverIDinit = true) (n : Nat) :
    KeepsServers exer (exer.modify n f) := by
  intro j e he
  rw [getElem?_modify, he]
  refine ⟨if n = j then f e else e, rfl, ?_⟩
  split
  · exact ⟨hid e, hinit e⟩
  · exact ⟨rfl, fun h => h⟩

theorem keepsServers_append (e : Exer) : KeepsServers exer (exer ++ [e]) := by
  intro j e' he'
  have hlt := (List.getElem?_eq_some_iff.mp he').1
  exact ⟨e', by rw [getElem?_append_left hlt, he'], rfl, fun h => h⟩

theorem mem_modify {f : Exer -> Exer} {n : Nat} {e : Exer} (h : e ∈ exer.modify n f) :
    e ∈ exer ∨ exists e', exer[n]? = some e' ∧ e = f e' := by
  obtain ⟨j, hj⟩ := mem_iff_getElem?.mp h
  rw [getElem?_modify] at hj
  obtain ⟨e', he', rfl⟩ := Option.map_eq_some_iff.mp hj
  by_cases hn : n = j
  · rw [if_pos hn]
    exact .inr ⟨e', hn ▸ he', rfl⟩
  · rw [if_neg hn]
    exact .inl (mem_of_getElem? he')

end

/-!
# The local table in a run
-/

structure Rolls (host : Host) (regs : List ServerId) (s : Coord) : Prop where
  remotes : RemotesListed host s.remoteIDs s.remoteAddr
  ofHost : forall id, id ∈ regs -> id.sock.addr ∉ host.otherIps
  heard : forall id, id ∈ regs -> host.refuses id.sock = false
  entered : forall entry, entry ∈ s.locals -> entry.server ∈ regs ∧
    (s.exer.findIdx? fun e => e.serverID.port = entry.server.port) = some entry.exerNo ∧
    exists e, s.exer[entry.exerNo]? = some e ∧ e.serverIDinit = true
  ports : (s.locals.map fun entry => entry.server.port).Nodup
  inits : forall e, e ∈ s.exer -> e.serverIDinit = true ->
    exists id, id ∈ regs ∧ id.port = e.serverID.port

variable {id : ServerId} {r : ServerId} {index : Nat}

namespace Rolls

variable {host : Host} {regs : List ServerId} {s : Coord}

section

variable (h : Rolls host regs s)

include h

theorem withExer {exer : List Exer} (hkeep : KeepsServers s.exer exer)
    (hinits : forall e, e ∈ exer -> e.serverIDinit = true ->
      exists id, id ∈ regs ∧ id.port = e.serverID.port) :
    Rolls host regs { s with exer := exer } where
  remotes := h.remotes
  ofHost := h.ofHost
  heard := h.heard
  entered := by
    intro entry hentry
    obtain ⟨hreg, hfind, e, he, hinit⟩ := h.entered entry hentry
    obtain ⟨e', he', -, hinit'⟩ := hkeep _ e he
    exact ⟨hreg, hkeep.findIdx? hfind, e', he', hinit' hinit⟩
  ports := h.ports
  inits := hinits

theorem start (id : ServerId) : Rolls host regs (s.start id) := by
  refine h.withExer (keepsServers_append _) ?_
  intro e he hinit
  rcases mem_append.mp he with hold | hnew
  · exact h.inits e hold hinit
  · obtain rfl := mem_singleton.mp hnew
    cases hinit

theorem die (exerNo : Nat) : Rolls host regs (s.die exerNo) := by
  refine h.withExer (keepsServers_modify (f := fun e => { e with deadFlag := true })
    (fun _ => rfl) (fun _ hinit => hinit) exerNo) ?_
  intro e he hinit
  rcases mem_modify he with hold | ⟨e', he', rfl⟩
  · exact h.inits e hold hinit
  · exact h.inits e' (mem_of_getElem? he') hinit

theorem register (hlocal : id.sock.addr ∉ host.otherIps)
    (hheard : host.refuses id.sock = false) : Rolls host (regs ++ [id]) s where
  remotes := h.remotes
  ofHost := forall_mem_append.mpr ⟨h.ofHost, forall_mem_singleton.mpr hlocal⟩
  heard := forall_mem_append.mpr ⟨h.heard, forall_mem_singleton.mpr hheard⟩
  entered := by
    intro entry hentry
    obtain ⟨hreg, hrest⟩ := h.entered entry hentry
    exact ⟨mem_append_left _ hreg, hrest⟩
  ports := h.ports
  inits := by
    intro e he hinit
    obtain ⟨x, hx, hport⟩ := h.inits e he hinit
    exact ⟨x, mem_append_left _ hx, hport⟩

theorem enter (hreg : id ∈ regs)
    (hnew : forall entry, entry ∈ s.locals -> entry.server.port ≠ id.port)
    (hin : s.Enters host id index) : Rolls host regs ((s.enterLocal index id).setInit index) := by
  have hkeep : KeepsServers s.exer (s.setInit index).exer :=
    keepsServers_modify (f := fun e => { e with serverIDinit := true }) (fun _ => rfl)
      (fun _ _ => rfl) index
  obtain ⟨e, he, hport⟩ := exer_of_findIdx hin.number
  have hexer := h.withExer hkeep (by
    intro e' he' hinit
    rcases mem_modify he' with hold | ⟨x, hx, rfl⟩
    · exact h.inits e' hold hinit
    · obtain rfl : e = x := Option.some.inj (he.symm.trans hx)
      exact ⟨id, hreg, hport.symm⟩)
  refine ⟨h.remotes, h.ofHost, h.heard, ?_, ?_, hexer.inits⟩
  · refine forall_mem_append.mpr ⟨hexer.entered, forall_mem_singleton.mpr ?_⟩
    refine ⟨hreg, hkeep.findIdx? hin.number, { e with serverIDinit := true }, ?_, rfl⟩
    show (s.exer.modify index _)[index]? = _
    rw [getElem?_modify, he]
    simp
  · show ((s.locals ++ [LocalEntry.mk id index]).map fun entry => entry.server.port).Nodup
    rw [map_append, map_singleton, nodup_append']
    refine ⟨h.ports, nodup_singleton _, ?_⟩
    rw [disjoint_singleton]
    intro hmem
    obtain ⟨entry, hentry, hsame⟩ := mem_map.mp hmem
    exact hnew entry hentry hsame

theorem takeIn (hnews : s.News host r) : Rolls host regs (s.takeIn r) :=
  ⟨h.remotes.takeIn hnews, h.ofHost, h.heard, h.entered, h.ports, h.inits⟩

theorem endLast (hfind : (s.locals.findIdx? fun entry => entry.server.port = id.port) = some index)
    (hlast : (CoordEvent.localExerTerm id).EndsLast s) :
    Rolls host regs { s with locals := removeLocal s.locals index } := by
  obtain ⟨hlt, hport, -⟩ := findIdx?_eq_some_iff_getElem.mp hfind
  have hlater := (pairwise_port_iff hfind).mp hlast
  have hnone : s.locals.drop (index + 1) = [] := by
    rw [eq_nil_iff_forall_not_mem]
    intro l hl
    have hnodup := h.ports
    rw [← take_append_drop index s.locals, drop_eq_getElem_cons hlt, map_append, map_cons] at hnodup
    have hcons := (nodup_append'.mp hnodup).2.1
    apply (nodup_cons.mp hcons).1
    rw [of_decide_eq_true hport, ← hlater l hl]
    exact mem_map_of_mem hl
  have hfront : removeLocal s.locals index = s.locals.take index := by
    rw [removeLocal_eq (getElem?_eq_getElem hlt), hnone, map_nil, append_nil]
  rw [hfront]
  refine ⟨h.remotes, h.ofHost, h.heard, ?_, ?_, h.inits⟩
  · intro entry hentry
    exact h.entered entry (mem_of_mem_take hentry)
  · exact h.ports.sublist ((take_sublist index s.locals).map _)

end

end Rolls

/-!
# What the handlers send
-/

variable {m : Sent} {x : ServerId} {newCoord : Bool}

section

variable {host : Host} {s : Coord}

theorem sendAll_allSent (n : Nat) (msgs : List Sent) :
    host.sendAll allSent n msgs = (msgs.filter fun m => !host.refuses m.dest, true) := by
  induction msgs generalizing n with
  | nil => rfl
  | cons m rest ih =>
    unfold Host.sendAll
    by_cases hrefuse : host.refuses m.dest = true
    · have hdrop : ¬ (!host.refuses m.dest) = true := by
        rw [hrefuse]
        exact Bool.false_ne_true
      rw [if_pos hrefuse, ih, filter_cons_of_neg (p := fun m : Sent => !host.refuses m.dest) hdrop]
    · have hkeep : (!host.refuses m.dest) = true := by
        rw [Bool.not_eq_true] at hrefuse
        rw [hrefuse]
        rfl
      rw [if_neg hrefuse, ih, filter_cons_of_pos (p := fun m : Sent => !host.refuses m.dest) hkeep]
      rfl

theorem refuses_of_other {addr : InAddr} (h : addr ∈ host.otherIps) (port : Nat) :
    host.refuses ⟨addr, port⟩ = false := by
  have hany : (host.otherIps.any fun ip => ip.octet4 = addr.octet4) = true :=
    any_eq_true.mpr ⟨addr, h, decide_eq_true rfl⟩
  unfold Host.refuses Host.cantConnect
  rw [hany, Bool.not_true, Bool.and_false, Bool.and_false]

theorem localServer_cases (host : Host) (s : Coord) (id : ServerId) :
    (exists index, s.Enters host id index) ∨
      (s.localServer host allSent id).coord = s ∧ (s.localServer host allSent id).sent = [] := by
  cases hfind : s.exer.findIdx? fun e => e.serverID.port = id.port with
  | none =>
    unfold localServer
    rw [hfind]
    exact .inr ⟨rfl, rfl⟩
  | some index =>
    by_cases hroom : MAXLOCAL ≤ s.locals.length
    · unfold localServer
      simp only [hfind, if_pos hroom, and_self, or_true]
    · refine .inl ⟨index, hfind, ?_⟩
      unfold localServer
      simp only [hfind, if_neg hroom, sendAll_allSent]
      rfl

theorem remServer_news (h : RemotesListed host s.remoteIDs s.remoteAddr) (hnews : s.News host r) :
    s.remServer host allSent r = ⟨s.takeIn r,
        ((s.takeIn r).remServerMsgs host (decide (r.sock.addr ∉ s.remoteAddr)) r).filter
          (fun m => !host.refuses m.dest), false⟩ := by
  rw [remServer_of_news allSent hnews h.addrs_room]
  simp only [sendAll_allSent]
  rfl

theorem informed_sublist (index : Nat) : (s.informed host index).Sublist (s.locals.map server) := by
  have hall : s.locals.map server = s.locals.zipIdx.map fun x => x.1.server :=
    calc s.locals.map server
        = (s.locals.zipIdx.map Prod.fst).map server := by rw [zipIdx_map_fst]
      _ = s.locals.zipIdx.map fun x => x.1.server := map_map
  rw [hall]
  exact (filter_sublist ..).map _

theorem mem_informed : x ∈ s.informed host index <->
      exists i entry, s.locals[i]? = some entry ∧ s.listens entry = true ∧
        (host.oneSysFlag = true ∨ index ≠ i) ∧ entry.server = x := by
  unfold informed
  rw [mem_map]
  constructor
  · rintro ⟨⟨entry, i⟩, hmem, rfl⟩
    obtain ⟨hz, hcond⟩ := mem_filter.mp hmem
    simp only [Bool.and_eq_true, Bool.or_eq_true, decide_eq_true_eq] at hcond
    exact ⟨i, entry, mem_zipIdx_iff_getElem?.mp hz, hcond.1, hcond.2, rfl⟩
  · rintro ⟨i, entry, hget, hlistens, hskip, rfl⟩
    refine ⟨(entry, i), mem_filter.mpr ⟨mem_zipIdx_iff_getElem?.mpr hget, ?_⟩, rfl⟩
    simp only [Bool.and_eq_true, Bool.or_eq_true, decide_eq_true_eq]
    exact ⟨hlistens, hskip⟩

theorem mem_localServerMsgs :
    m ∈ s.localServerMsgs host index id <->
      (exists r, r ∈ s.remoteIDs ∧ Sent.mk .stream id.sock .remoteServer r = m) ∨
      (exists x, x ∈ s.informed host index ∧ Sent.mk .stream x.sock .localServer id = m) ∨
      exists x, x ∈ s.informed host index ∧ Sent.mk .stream id.sock .localServer x = m := by
  unfold localServerMsgs
  rw [mem_append, mem_append, mem_map, mem_map, mem_map, or_assoc]

theorem mem_remServerMsgs :
    m ∈ s.remServerMsgs host newCoord r <->
      (exists x, x ∈ s.listening ∧ Sent.mk .stream x.sock .remoteServer r = m) ∨
      (exists x, x ∈ s.listening ∧
        Sent.mk .stream ⟨r.sock.addr, host.comStreamPort⟩ .remoteServer x = m) ∨
      newCoord = true ∧ m ∈ replicate host r zero s.remoteAddr := by
  unfold remServerMsgs
  rw [mem_append, mem_append, mem_map, mem_map, or_assoc, mem_ite_nil_right]

theorem mem_listening :
    x ∈ s.listening <-> exists entry, entry ∈ s.locals ∧ s.listens entry = true ∧
      entry.server = x := by
  unfold listening
  rw [mem_map]
  constructor
  · rintro ⟨entry, hmem, rfl⟩
    exact ⟨entry, (mem_filter.mp hmem).1, (mem_filter.mp hmem).2, rfl⟩
  · rintro ⟨entry, hmem, hlistens, rfl⟩
    exact ⟨entry, mem_filter.mpr ⟨hmem, hlistens⟩, rfl⟩

def toCoord (host : Host) (id : ServerId) (addr : InAddr) : Sent :=
  ⟨.stream, ⟨addr, host.comStreamPort⟩, .remoteServer, id⟩

theorem replicate_of_ne {dest : InAddr} {front : List InAddr}
    (hdest : dest ≠ id.sock.addr) (hfront : id.sock.addr ∉ front) :
    replicate host id dest (front ++ [id.sock.addr]) =
      (front ++ [id.sock.addr]).map (toCoord host id) := by
  induction front generalizing dest with
  | nil =>
    show replicate host id dest [id.sock.addr] = _
    unfold Coord.replicate
    rw [if_neg hdest]
    rfl
  | cons addr rest ih =>
    rw [mem_cons, not_or] at hfront
    show replicate host id dest (addr :: (rest ++ [id.sock.addr])) = _
    unfold Coord.replicate
    rw [if_neg hdest, ih (Ne.symm hfront.1) hfront.2]
    rfl

theorem replicate_of_eq {dest : InAddr} (hdest : dest = id.sock.addr)
    (addrs : List InAddr) : replicate host id dest addrs = [] := by
  induction addrs with
  | nil => rfl
  | cons addr rest ih =>
    unfold Coord.replicate
    rw [if_pos hdest, ih]

theorem replicate_takeIn (hnew : r.sock.addr ∉ s.remoteAddr) :
    replicate host r zero (s.takeIn r).remoteAddr =
      if r.sock.addr = zero then []
      else (s.takeIn r).remoteAddr.map (toCoord host r) := by
  have haddrs : (s.takeIn r).remoteAddr = s.remoteAddr ++ [r.sock.addr] := if_neg hnew
  split
  · rename_i hzero
    exact replicate_of_eq hzero.symm _
  · rename_i hzero
    rw [haddrs]
    exact replicate_of_ne (Ne.symm hzero) hnew

end

/-!
# Accounting for the messages
-/

def countedMsg (host : Host) (m : Sent) : Bool :=
  m.transport = .stream && (m.msgType = .localServer ||
    (m.msgType = .remoteServer && decide (m.server.sock.addr ∈ host.otherIps)))

theorem countedMsg_iff {host : Host} :
    countedMsg host m = true <-> m.transport = .stream ∧ (m.msgType = .localServer ∨
      m.msgType = .remoteServer ∧ m.server.sock.addr ∈ host.otherIps) := by
  unfold countedMsg
  simp only [Bool.and_eq_true, Bool.or_eq_true, decide_eq_true_eq]

structure Mail (host : Host) (regs ids : List ServerId) (log : List Sent) : Prop where
  locals : forall m, m ∈ log -> m.transport = .stream -> m.msgType = .localServer ->
    exists x, x ∈ regs ∧ m.dest = x.sock ∧ m.server ∈ regs ∧ x.port ≠ m.server.port
  remotes : forall m, m ∈ log -> m.transport = .stream -> m.msgType = .remoteServer ->
    m.server ∈ regs ∨ m.server ∈ ids ∧ ((exists x, x ∈ regs ∧ m.dest = x.sock) ∨
        m.dest.addr ∈ host.otherIps ∧ m.server.sock.addr ≠ InAddr.zero)
  once : (log.filter (countedMsg host)).Nodup

variable {s : Coord}

namespace Mail

variable {host : Host} {regs regs' ids ids' : List ServerId} {log new : List Sent}

theorem nil : Mail host regs ids [] :=
  ⟨fun _ h => absurd h not_mem_nil, fun _ h => absurd h not_mem_nil, nodup_nil⟩

section

variable (h : Mail host regs ids log)

include h

theorem sublist (hsub : new.Sublist log) : Mail host regs ids new :=
  ⟨fun m hm => h.locals m (hsub.subset hm), fun m hm => h.remotes m (hsub.subset hm),
    h.once.sublist (hsub.filter _)⟩

theorem mono (hregs : regs ⊆ regs') (hids : ids ⊆ ids') : Mail host regs' ids' log where
  locals := by
    intro m hm ht hl
    obtain ⟨x, hx, hdest, hserver, hne⟩ := h.locals m hm ht hl
    exact ⟨x, hregs hx, hdest, hregs hserver, hne⟩
  remotes := by
    intro m hm ht hr
    rcases h.remotes m hm ht hr with hreg | ⟨hid, ⟨x, hx, hdest⟩ | hother⟩
    · exact .inl (hregs hreg)
    · exact .inr ⟨hids hid, .inl ⟨x, hregs hx, hdest⟩⟩
    · exact .inr ⟨hids hid, .inr hother⟩
  once := h.once

theorem append (hnew : Mail host regs ids new)
    (hfresh : forall m, m ∈ log -> m ∈ new -> countedMsg host m = true -> False) :
    Mail host regs ids (log ++ new) where
  locals := fun m hm => (mem_append.mp hm).elim (h.locals m) (hnew.locals m)
  remotes := fun m hm => (mem_append.mp hm).elim (h.remotes m) (hnew.remotes m)
  once := by
    rw [filter_append, nodup_append']
    refine ⟨h.once, hnew.once, ?_⟩
    intro m hold hm
    obtain ⟨hmem, hcounted⟩ := mem_filter.mp hold
    exact hfresh m hmem (mem_filter.mp hm).1 hcounted

theorem append_aside
    (haside : forall m, m ∈ new -> m.transport = .dgram ∨ m.msgType = .remoteExerTerm) :
    Mail host regs ids (log ++ new) := by
  have hnot : forall m, m ∈ new -> ¬ (m.transport = .stream ∧ m.msgType ≠ .remoteExerTerm) := by
    rintro m hm ⟨ht, hty⟩
    rcases haside m hm with hd | hterm
    · rw [ht] at hd
      cases hd
    · exact hty hterm
  have huncounted : forall m, m ∈ new -> countedMsg host m ≠ true := by
    intro m hm hcounted
    obtain ⟨ht, hkind⟩ := countedMsg_iff.mp hcounted
    refine hnot m hm ⟨ht, ?_⟩
    rcases hkind with hl | ⟨hr, -⟩
    · rw [hl]
      exact MsgType.noConfusion
    · rw [hr]
      exact MsgType.noConfusion
  refine h.append ⟨?_, ?_, ?_⟩ (fun m _ hm hcounted => huncounted m hm hcounted)
  · intro m hm ht hl
    exact absurd ⟨ht, by rw [hl]; exact MsgType.noConfusion⟩ (hnot m hm)
  · intro m hm ht hr
    exact absurd ⟨ht, by rw [hr]; exact MsgType.noConfusion⟩ (hnot m hm)
  · rw [filter_eq_nil_iff.mpr huncounted]
    exact nodup_nil

end

theorem nodup_of_key {α β : Type} {xs : List α} {f : α -> Sent} (key : Sent -> β)
    (h : (xs.map fun x => key (f x)).Nodup) : (xs.map f).Nodup := by
  refine List.Nodup.of_map key ?_
  rw [map_map]
  exact h

theorem of_localServer (hid : id ∈ regs)
    (hinformed : forall x, x ∈ s.informed host index -> x ∈ regs ∧ x.port ≠ id.port)
    (hports : ((s.informed host index).map port).Nodup)
    (hids : (s.remoteIDs.map sock).Nodup) :
    Mail host regs s.remoteIDs (s.localServerMsgs host index id) where
  locals := by
    intro m hm _ hl
    rcases mem_localServerMsgs.mp hm with ⟨r, -, rfl⟩ | ⟨x, hx, rfl⟩ | ⟨x, hx, rfl⟩
    · cases hl
    · exact ⟨x, (hinformed x hx).1, rfl, hid, (hinformed x hx).2⟩
    · exact ⟨id, hid, rfl, (hinformed x hx).1, Ne.symm (hinformed x hx).2⟩
  remotes := by
    intro m hm _ hr
    rcases mem_localServerMsgs.mp hm with ⟨r, hrmem, rfl⟩ | ⟨x, -, rfl⟩ | ⟨x, -, rfl⟩
    · exact .inr ⟨hrmem, .inl ⟨id, hid, rfl⟩⟩
    · cases hr
    · cases hr
  once := by
    refine List.Nodup.filter _ ?_
    unfold localServerMsgs
    rw [nodup_append', nodup_append']
    refine ⟨⟨nodup_of_key (fun m => m.server.sock) hids,
      nodup_of_key (fun m => m.dest.port) hports, ?_⟩,
      nodup_of_key (fun m => m.server.port) hports, ?_⟩
    · intro m hremote hlocal
      obtain ⟨r, -, rfl⟩ := mem_map.mp hremote
      obtain ⟨x, -, heq⟩ := mem_map.mp hlocal
      have htype := congrArg Sent.msgType heq
      cases htype
    · intro m hm hback
      obtain ⟨y, -, rfl⟩ := mem_map.mp hback
      rcases mem_append.mp hm with hm | hm
      · obtain ⟨r, -, heq⟩ := mem_map.mp hm
        have htype := congrArg Sent.msgType heq
        cases htype
      · obtain ⟨x, hx, heq⟩ := mem_map.mp hm
        have hsock : x.sock = id.sock := congrArg Sent.dest heq
        exact (hinformed x hx).2 (congrArg SockAddr.port hsock)

theorem of_remServer (hr : r ∈ s.remoteIDs)
    (hlistening : forall x, x ∈ s.listening -> x ∈ regs ∧ x.sock.addr ∉ host.otherIps)
    (hports : (s.listening.map port).Nodup) (haddrs : s.remoteAddr.Nodup)
    (hother : forall addr, addr ∈ s.remoteAddr -> addr ∈ host.otherIps)
    (hrep : newCoord = true -> replicate host r zero s.remoteAddr =
      if r.sock.addr = zero then [] else s.remoteAddr.map (toCoord host r)) :
    Mail host regs s.remoteIDs (s.remServerMsgs host newCoord r) := by
  have hpassed : forall m, newCoord = true ∧ m ∈ replicate host r zero s.remoteAddr ->
      r.sock.addr ≠ zero ∧ exists addr, addr ∈ s.remoteAddr ∧ toCoord host r addr = m := by
    rintro m ⟨hnew, hm⟩
    rw [hrep hnew] at hm
    split at hm
    · exact absurd hm not_mem_nil
    · rename_i hzero
      exact ⟨hzero, mem_map.mp hm⟩
  constructor
  · intro m hm _ hl
    rcases mem_remServerMsgs.mp hm with ⟨x, -, rfl⟩ | ⟨x, -, rfl⟩ | hpass
    · cases hl
    · cases hl
    · obtain ⟨-, addr, -, rfl⟩ := hpassed m hpass
      cases hl
  · intro m hm _ _
    rcases mem_remServerMsgs.mp hm with ⟨x, hx, rfl⟩ | ⟨x, hx, rfl⟩ | hpass
    · exact .inr ⟨hr, .inl ⟨x, (hlistening x hx).1, rfl⟩⟩
    · exact .inl (hlistening x hx).1
    · obtain ⟨hzero, addr, haddr, rfl⟩ := hpassed m hpass
      exact .inr ⟨hr, .inr ⟨hother addr haddr, hzero⟩⟩
  · -- messages about local servers go to another host once for every server of that host
    have habout : (s.listening.map fun a : ServerId =>
        Sent.mk .stream ⟨r.sock.addr, host.comStreamPort⟩ .remoteServer a).filter
          (countedMsg host) = [] := by
      rw [filter_eq_nil_iff]
      intro m hm
      obtain ⟨x, hx, rfl⟩ := mem_map.mp hm
      unfold countedMsg
      rw [decide_eq_false (hlistening x hx).2]
      exact Bool.false_ne_true
    have hrepNodup : (if newCoord then replicate host r zero s.remoteAddr
        else []).Nodup := by
      split
      · rename_i hnew
        rw [hrep hnew]
        split
        · exact nodup_nil
        · refine nodup_of_key (fun m => m.dest.addr) ?_
          exact (map_id s.remoteAddr).symm ▸ haddrs
      · exact nodup_nil
    unfold remServerMsgs
    rw [filter_append, filter_append, habout, append_nil, nodup_append']
    refine ⟨(nodup_of_key (fun m => m.dest.port) hports).filter _, hrepNodup.filter _, ?_⟩
    intro m htold hpass
    obtain ⟨x, hx, rfl⟩ := mem_map.mp (mem_filter.mp htold).1
    obtain ⟨-, addr, haddr, heq⟩ := hpassed _ (mem_ite_nil_right.mp (mem_filter.mp hpass).1)
    have hdest : addr = x.sock.addr := congrArg (fun m => m.dest.addr) heq
    exact (hlistening x hx).2 (hdest ▸ hother addr haddr)

end Mail

/-!
# One step
-/

structure Ledger (host : Host) (regs : List ServerId) (log : List Sent) (s : Coord) : Prop where
  rolls : Rolls host regs s
  mail : Mail host regs s.remoteIDs log

section

variable {host : Host} {regs : List ServerId} {log : List Sent} {s : Coord}

variable {id : ServerId} {index : Nat} {m : Sent}

section

variable (h : Rolls host regs s) (hfresh : forall x, x ∈ regs -> x.port ≠ id.port)

include h hfresh

theorem Rolls.fresh_entry {entry : LocalEntry} (hentry : entry ∈ s.locals) :
    entry.server.port ≠ id.port :=
  hfresh _ (h.entered entry hentry).1

theorem Rolls.newcomer_silent (hin : s.Enters host id index) : s.listens ⟨id, index⟩ = false := by
  obtain ⟨e, he, hport⟩ := exer_of_findIdx hin.number
  have hinit : e.serverIDinit = false := by
    by_contra hinit
    obtain ⟨x, hx, hsame⟩ := h.inits e (mem_of_getElem? he) (Bool.eq_true_of_not_eq_false hinit)
    exact hfresh x hx (hsame.trans hport)
  unfold listens
  simp only [he, hinit, Bool.false_and]

theorem Rolls.informed_regs (hin : s.Enters host id index)
    (hx : x ∈ (s.enterLocal index id).informed host index) : x ∈ regs ∧ x.port ≠ id.port := by
  obtain ⟨i, entry, hget, hlistens, -, rfl⟩ := mem_informed.mp hx
  rcases mem_append.mp (mem_of_getElem? hget) with hold | hnew
  · exact ⟨(h.entered entry hold).1, h.fresh_entry hfresh hold⟩
  · obtain rfl := mem_singleton.mp hnew
    have hsilent := h.newcomer_silent hfresh hin
    rw [show s.listens ⟨id, index⟩ = true from hlistens] at hsilent
    cases hsilent

end

theorem Mail.fresh_localServer {ids : List ServerId} (h : Mail host regs ids log)
    (hfresh : forall x, x ∈ regs -> x.port ≠ id.port)
    (hofHost : forall x, x ∈ regs -> x.sock.addr ∉ host.otherIps)
    (hlocal : id.sock.addr ∉ host.otherIps) (hold : m ∈ log)
    (hm : m ∈ s.localServerMsgs host index id) (hcounted : countedMsg host m = true) : False := by
  obtain ⟨-, hkind⟩ := countedMsg_iff.mp hcounted
  rcases mem_localServerMsgs.mp hm with ⟨r, -, rfl⟩ | ⟨x, -, rfl⟩ | ⟨x, -, rfl⟩
  · rcases h.remotes _ hold rfl rfl with hreg | ⟨-, ⟨x, hx, hdest⟩ | ⟨hother, -⟩⟩
    · rcases hkind with hl | ⟨-, haddr⟩
      · cases hl
      · exact hofHost r hreg haddr
    · exact hfresh x hx (congrArg SockAddr.port hdest.symm)
    · exact hlocal hother
  · obtain ⟨-, -, -, hserver, -⟩ := h.locals _ hold rfl rfl
    exact hfresh id hserver rfl
  · obtain ⟨y, hy, hdest, -⟩ := h.locals _ hold rfl rfl
    exact hfresh y hy (congrArg SockAddr.port hdest.symm)

theorem Rolls.listening_regs (h : Rolls host regs s) (hx : x ∈ s.listening) :
    x ∈ regs ∧ x.sock.addr ∉ host.otherIps := by
  obtain ⟨entry, hentry, -, rfl⟩ := mem_listening.mp hx
  have hreg := (h.entered entry hentry).1
  exact ⟨hreg, h.ofHost _ hreg⟩

theorem Rolls.listening_ports (h : Rolls host regs s) : (s.listening.map port).Nodup := by
  unfold listening
  rw [map_map]
  exact h.ports.sublist ((filter_sublist ..).map _)

theorem informed_ports (h : (s.locals.map fun entry => entry.server.port).Nodup) (index : Nat) :
    ((s.informed host index).map port).Nodup := by
  have hall : ((s.locals.map server).map port).Nodup := by
    rw [map_map]
    exact h
  exact hall.sublist ((informed_sublist index).map _)

theorem mem_replicate {dest : InAddr} {addrs : List InAddr}
    (hm : m ∈ replicate host id dest addrs) :
    m.msgType = .remoteServer ∧ m.server = id := by
  induction addrs generalizing dest with
  | nil => exact absurd hm not_mem_nil
  | cons addr rest ih =>
    unfold Coord.replicate at hm
    split at hm
    · exact ih hm
    · rcases mem_cons.mp hm with rfl | hlater
      · exact ⟨rfl, rfl⟩
      · exact ih hlater

theorem about_remServerMsgs (hm : m ∈ s.remServerMsgs host newCoord r) :
    m.msgType = .remoteServer ∧ (m.server = r ∨ m.server ∈ s.listening) := by
  rcases mem_remServerMsgs.mp hm with ⟨x, -, rfl⟩ | ⟨x, hx, rfl⟩ | ⟨-, hpass⟩
  · exact ⟨rfl, .inl rfl⟩
  · exact ⟨rfl, .inr hx⟩
  · exact ⟨(mem_replicate hpass).1, .inl (mem_replicate hpass).2⟩

theorem mem_broadcastMsg {msgType : MsgType} (hm : m ∈ host.broadcastMsg msgType id) :
    m.transport = .dgram := by
  unfold Host.broadcastMsg at hm
  split at hm
  · obtain rfl := mem_singleton.mp hm
    rfl
  · obtain ⟨ip, -, rfl⟩ := mem_map.mp hm
    rfl

theorem Rolls.listens_of_alive (h : Rolls host regs s) (halive : s.Alive id) :
    exists entry, entry ∈ s.locals ∧ s.listens entry = true ∧ entry.server = id := by
  obtain ⟨⟨entry, hentry, rfl⟩, e, hfind, hdead⟩ := halive
  obtain ⟨-, hidx, e', he', hinit⟩ := h.entered entry hentry
  obtain ⟨hlt, hport, hbefore⟩ := findIdx?_eq_some_iff_getElem.mp hidx
  have hsame : e' = e := by
    have hfirst : (s.exer.find? fun e => e.serverID.port = entry.server.port) =
        some s.exer[entry.exerNo] :=
      find?_eq_some_iff_getElem.mpr
        ⟨hport, entry.exerNo, hlt, rfl, fun j hj => by simpa using hbefore j hj⟩
    rw [getElem?_eq_getElem hlt] at he'
    exact Option.some.inj (he'.symm.trans (hfirst.symm.trans hfind))
  subst hsame
  refine ⟨entry, hentry, ?_, rfl⟩
  unfold listens
  simp only [he', hinit, hdead, Bool.not_false, Bool.and_true]

theorem Rolls.informed_of_alive (h : Rolls host regs s) {a b : ServerId} (halive : s.Alive a)
    (hmeets : (CoordEvent.localServer b).Meets host s) (hin : s.Enters host b index) :
    a ∈ (s.enterLocal index b).informed host index := by
  obtain ⟨entry, hentry, hlistens, rfl⟩ := h.listens_of_alive halive
  obtain ⟨i, hi⟩ := mem_iff_getElem?.mp hentry
  have hlt := (List.getElem?_eq_some_iff.mp hi).1
  refine mem_informed.mpr ⟨i, entry, ?_, hlistens, ?_, rfl⟩
  · show (s.locals ++ [LocalEntry.mk b index])[i]? = some entry
    rw [getElem?_append_left hlt, hi]
  · refine hmeets.2.2.imp_right fun hposition => ?_
    rintro rfl
    have hsilent := hposition entry (by
      show (Option.bind _ _) = some entry
      rw [hin.number]
      exact hi)
    rw [hlistens] at hsilent
    cases hsilent

namespace Ledger

section

variable (h : Ledger host regs log s)

include h

theorem localServer (hmeets : (CoordEvent.localServer id).Meets host s)
    (hfresh : forall x, x ∈ regs -> x.port ≠ id.port) :
    Ledger host (regs ++ [id]) (log ++ (s.localServer host allSent id).sent)
      (s.localServer host allSent id).coord := by
  obtain ⟨hlocal, hheard, -⟩ := hmeets
  have hrolls := h.rolls.register hlocal hheard
  have hmail := h.mail.mono (subset_append_left regs [id]) (List.Subset.refl _)
  rcases localServer_cases host s id with ⟨index, hin⟩ | ⟨hcoord, hsent⟩
  · have hid : id ∈ regs ++ [id] := mem_append_right _ (mem_singleton_self id)
    have hrolls' := hrolls.enter hid (fun _ => h.rolls.fresh_entry hfresh) hin
    have hmsgs : Mail host (regs ++ [id]) s.remoteIDs
        ((s.enterLocal index id).localServerMsgs host index id) := by
      have hports : ((s.enterLocal index id).locals.map fun entry => entry.server.port).Nodup :=
        hrolls'.ports
      refine Mail.of_localServer (s := s.enterLocal index id) hid ?_
        (informed_ports hports index) h.rolls.remotes.distinct
      intro x hx
      obtain ⟨hreg, hne⟩ := h.rolls.informed_regs hfresh hin hx
      exact ⟨mem_append_left _ hreg, hne⟩
    rw [hin.handled]
    refine ⟨hrolls', ?_⟩
    rw [← append_assoc]
    refine (hmail.append (hmsgs.sublist (filter_sublist ..)) ?_).append_aside
      (fun m hm => .inl (mem_broadcastMsg hm))
    intro m hold hm
    exact h.mail.fresh_localServer hfresh h.rolls.ofHost hlocal hold (mem_filter.mp hm).1
  · rw [hcoord, hsent, append_nil]
    exact ⟨hrolls, hmail⟩

theorem remServer (r : ServerId) :
    Ledger host regs (log ++ (s.remServer host allSent r).sent)
      (s.remServer host allSent r).coord := by
  by_cases hnews : s.News host r
  · have hrolls := h.rolls.takeIn hnews
    have hmsgs : Mail host regs (s.takeIn r).remoteIDs
        ((s.takeIn r).remServerMsgs host (decide (r.sock.addr ∉ s.remoteAddr)) r) := by
      refine Mail.of_remServer (mem_append_right _ (mem_singleton_self r))
        (fun _ => hrolls.listening_regs) hrolls.listening_ports hrolls.remotes.addrs_distinct ?_ ?_
      · intro addr haddr
        obtain ⟨id, hid, rfl⟩ := (hrolls.remotes.addrs_exact addr).mp haddr
        exact (hrolls.remotes.other id hid).2
      · intro hnew
        exact replicate_takeIn (of_decide_eq_true hnew)
    rw [remServer_news h.rolls.remotes hnews]
    refine ⟨hrolls, (h.mail.mono (List.Subset.refl _) (subset_append_left _ [r])).append
      (hmsgs.sublist (filter_sublist ..)) ?_⟩
    intro m hold hm hcounted
    obtain ⟨ht, hkind⟩ := countedMsg_iff.mp hcounted
    obtain ⟨hremote, habout⟩ := about_remServerMsgs (mem_filter.mp hm).1
    have haddr : m.server.sock.addr ∈ host.otherIps := by
      rcases hkind with hl | ⟨-, haddr⟩
      · rw [hremote] at hl
        cases hl
      · exact haddr
    have hserver : m.server = r := habout.resolve_right
      fun hlistening => (hrolls.listening_regs hlistening).2 haddr
    rcases h.mail.remotes m hold ht hremote with hreg | ⟨hknown, -⟩
    · exact h.rolls.ofHost _ hreg haddr
    · exact hnews.fresh _ hknown (congrArg sock hserver)
  · rw [remServer_of_not_news allSent hnews, append_nil]
    exact h

theorem localExerTerm (hlast : (CoordEvent.localExerTerm id).EndsLast s) :
    Ledger host regs (log ++ (s.localExerTerm host allSent id).sent)
      (s.localExerTerm host allSent id).coord := by
  unfold Coord.localExerTerm
  split
  · rw [append_nil]
    exact h
  · rename_i index hfind
    simp only [sendAll_allSent]
    refine ⟨h.rolls.endLast hfind hlast, h.mail.append_aside ?_⟩
    intro m hm
    obtain ⟨addr, -, rfl⟩ := mem_map.mp (mem_filter.mp hm).1
    exact .inr rfl

theorem step {e : CoordEvent} (hmeets : e.Meets host s)
    (hfresh : forall id, e.registered = some id -> forall x, x ∈ regs -> x.port ≠ id.port)
    (hremain : forall id, e ≠ .remoteExerTerm id) :
    Ledger host (regs ++ e.registered.toList) (log ++ (s.handle host allSent e).sent)
      (s.handle host allSent e).coord := by
  have hnone : regs ++ (none : Option ServerId).toList = regs := append_nil regs
  cases e with
  | localServer id => exact h.localServer hmeets (hfresh id rfl)
  | remServer r => exact hnone.symm ▸ h.remServer r
  | localExerTerm id => exact hnone.symm ▸ h.localExerTerm hmeets
  | remoteExerTerm id => exact absurd rfl (hremain id)
  | broadcastLocals =>
    refine hnone.symm ▸ ⟨h.rolls, h.mail.append_aside ?_⟩
    intro m hm
    obtain ⟨entry, -, hm⟩ := mem_flatMap.mp hm
    exact .inl (mem_broadcastMsg hm)
  | start id =>
    refine hnone.symm ▸ ⟨h.rolls.start id, h.mail.append_aside ?_⟩
    exact fun m hm => absurd hm not_mem_nil
  | die exerNo =>
    refine hnone.symm ▸ ⟨h.rolls.die exerNo, h.mail.append_aside ?_⟩
    exact fun m hm => absurd hm not_mem_nil

end

end Ledger

end

/-!
# Runs
-/

def sentSystem (host : Host) : EventSystem Coord CoordEvent where
  Initial s := exists exer, s = initial exer
  step s e := some (s.handle host allSent e).coord

section

variable {host : Host} {s : Coord} {events front back : List CoordEvent}

theorem admits_append {Guard : Coord -> CoordEvent -> Prop}
    (h : (sentSystem host).Admits Guard s (front ++ back)) :
    (sentSystem host).Admits Guard s front ∧
      (sentSystem host).Admits Guard (s.after host front) back := by
  induction front generalizing s with
  | nil => exact ⟨trivial, h⟩
  | cons e rest ih =>
    obtain ⟨hfront, hback⟩ := ih h.2
    exact ⟨⟨h.1, hfront⟩, hback⟩

theorem Ledger.run {regs : List ServerId} {log : List Sent} (h : Ledger host regs log s)
    (hmeets : (sentSystem host).Admits (fun s e => e.Meets host s) s events)
    (honce : ((regs ++ events.filterMap CoordEvent.registered).map port).Nodup)
    (hremain : forall id, .remoteExerTerm id ∉ events) :
    Ledger host (regs ++ events.filterMap CoordEvent.registered) (log ++ s.sentOn host events)
      (s.after host events) := by
  induction events generalizing s regs log with
  | nil =>
    rw [filterMap_nil, append_nil]
    show Ledger host regs (log ++ []) s
    rwa [append_nil]
  | cons e rest ih =>
    have hregs : regs ++ (e :: rest).filterMap CoordEvent.registered =
        (regs ++ e.registered.toList) ++ rest.filterMap CoordEvent.registered := by
      cases hreg : e.registered with
      | none => rw [filterMap_cons_none hreg, Option.toList_none, append_nil]
      | some id =>
        rw [filterMap_cons_some hreg, Option.toList_some, append_assoc]
        rfl
    rw [hregs] at honce ⊢
    have hstep := h.step hmeets.1 (by
      intro id hid x hx hport
      rw [hid, map_append, map_append] at honce
      have hdisj := (nodup_append'.mp (nodup_append'.mp honce).1).2.2
      exact hdisj (mem_map_of_mem hx) (by
        rw [hport]
        exact mem_singleton_self _))
      (fun id heq => hremain id (heq ▸ mem_cons_self))
    have hrun := ih hstep hmeets.2 honce (fun id hmem => hremain id (mem_cons_of_mem _ hmem))
    rw [append_assoc log] at hrun
    exact hrun

def Fresh (exer : List Exer) : Prop :=
  forall e, e ∈ exer -> e.serverIDinit = false

theorem ledger_initial {exer : List Exer} (h : Fresh exer) : Ledger host [] [] (initial exer) where
  rolls :=
    { remotes := (initial_consistent host exer).remotes
      ofHost := fun _ hid => absurd hid not_mem_nil
      heard := fun _ hid => absurd hid not_mem_nil
      entered := fun _ hentry => absurd hentry not_mem_nil
      ports := nodup_nil
      inits := by
        intro e he hinit
        rw [h e he] at hinit
        cases hinit }
  mail := Mail.nil

variable {exer : List Exer}

structure Proper (host : Host) (exer : List Exer) (events : List CoordEvent) : Prop where
  fresh : Fresh exer
  course : Course events
  meets : (sentSystem host).Admits (fun s e => e.Meets host s) (initial exer) events

namespace Proper

theorem begins (h : Proper host exer (front ++ back)) : Proper host exer front where
  fresh := h.fresh
  course := by
    refine ⟨?_, fun id hid => h.course.remain id (mem_append_left _ hid)⟩
    have honce := h.course.once
    rw [filterMap_append, map_append] at honce
    exact (nodup_append'.mp honce).1
  meets := (admits_append h.meets).1

theorem ledger (h : Proper host exer events) : Ledger host (events.filterMap CoordEvent.registered)
      ((initial exer).sentOn host events) ((initial exer).after host events) := by
  have hstart : Ledger host [] [] (initial exer) := ledger_initial h.fresh
  have hrun := hstart.run h.meets (by rw [nil_append]; exact h.course.once) h.course.remain
  rwa [nil_append, nil_append] at hrun

theorem meets_at {e : CoordEvent} (h : Proper host exer (front ++ e :: back)) :
    e.Meets host ((initial exer).after host front) :=
  (admits_append h.meets).2.1

theorem fresh_at (h : Proper host exer (front ++ .localServer id :: back))
    (hx : x ∈ front.filterMap CoordEvent.registered) : x.port ≠ id.port := by
  intro hport
  have honce := h.course.once
  rw [filterMap_append, filterMap_cons_some (f := CoordEvent.registered) (b := id) rfl, map_append,
    map_cons] at honce
  refine (nodup_append'.mp honce).2.2 (mem_map_of_mem hx) ?_
  rw [hport]
  exact mem_cons_self

theorem sent_at {e : CoordEvent} (hm : m ∈ ((s.after host front).handle host allSent e).sent) :
    m ∈ s.sentOn host (front ++ e :: back) := by
  rw [sentOn_append]
  exact mem_append_right _ (mem_append_left _ hm)

theorem after_concat (e : CoordEvent) : s.after host (front ++ [e]) =
      ((s.after host front).handle host allSent e).coord := by
  rw [after_append]
  rfl

theorem times_one (h : Proper host exer events)
    (hm : m ∈ (initial exer).sentOn host events) (hcounted : countedMsg host m = true) :
    ((initial exer).sentOn host events).count m = 1 := by
  rw [← count_filter hcounted]
  exact count_eq_one_of_mem h.ledger.mail.once (mem_filter.mpr ⟨hm, hcounted⟩)

theorem entered_at {b : ServerId} (h : Proper host exer (front ++ .localServer b :: back))
    (halive : ((initial exer).after host (front ++ [.localServer b])).Alive b) :
    exists index, ((initial exer).after host front).Enters host b index := by
  rcases localServer_cases host ((initial exer).after host front) b with hin | ⟨hcoord, -⟩
  · exact hin
  · rw [after_concat] at halive
    obtain ⟨⟨entry, hentry, rfl⟩, -⟩ := halive
    have hold : entry ∈ ((initial exer).after host front).locals := by
      rw [← hcoord]
      exact hentry
    exact absurd rfl (h.fresh_at (h.begins.ledger.rolls.entered entry hold).1)

theorem sent_on_registration (back : List CoordEvent) {b : ServerId}
    (hin : (s.after host front).Enters host b index)
    (hm : m ∈ ((s.after host front).enterLocal index b).localServerMsgs host index b)
    (hheard : host.refuses m.dest = false) :
    m ∈ s.sentOn host (front ++ .localServer b :: back) := by
  apply sent_at
  show m ∈ (localServer host allSent _ b).sent
  rw [hin.handled]
  refine mem_append_left _ (mem_filter.mpr ⟨hm, ?_⟩)
  rw [hheard]
  rfl

theorem localsTold (h : Proper host exer events) : LocalsTold host (initial exer) events where
  both := by
    rintro front a b back rfl hold hnew
    obtain ⟨index, hin⟩ := h.entered_at hnew
    have hrolls := h.begins.ledger.rolls
    have hinformed := hrolls.informed_of_alive hold h.meets_at hin
    obtain ⟨hreg, -⟩ := hrolls.informed_regs (fun _ => h.fresh_at) hin hinformed
    have hfirst := sent_on_registration back hin (m := ⟨.stream, a.sock, .localServer, b⟩)
      (mem_append_left _ (mem_append_right _ (mem_map_of_mem hinformed)))
      (hrolls.heard a hreg)
    have hsecond := sent_on_registration back hin (m := ⟨.stream, b.sock, .localServer, a⟩)
      (mem_append_right _ (mem_map_of_mem hinformed)) h.meets_at.2.1
    exact ⟨h.times_one hfirst rfl, h.times_one hsecond rfl⟩
  notItself := by
    intro id
    refine count_eq_zero_of_not_mem fun hm => ?_
    obtain ⟨x, -, hdest, -, hne⟩ := h.ledger.mail.locals _ hm rfl rfl
    exact hne (congrArg SockAddr.port hdest.symm)

variable {r : ServerId}

theorem news_of_changed (h : (s.remServer host allSent r).coord ≠ s) : s.News host r := by
  by_contra hnews
  rw [remServer_of_not_news allSent hnews] at h
  exact h rfl

theorem sent_on_news (h : Proper host exer front) (back : List CoordEvent)
    (hnews : ((initial exer).after host front).News host r)
    (hm : m ∈ (((initial exer).after host front).takeIn r).remServerMsgs host
      (decide (r.sock.addr ∉ ((initial exer).after host front).remoteAddr)) r)
    (hheard : host.refuses m.dest = false) :
    m ∈ (initial exer).sentOn host (front ++ .remServer r :: back) := by
  apply sent_at
  show m ∈ (remServer host allSent _ r).sent
  rw [remServer_news h.ledger.rolls.remotes hnews]
  refine mem_filter.mpr ⟨hm, ?_⟩
  rw [hheard]
  rfl

theorem remotesTold (h : Proper host exer events) : RemotesTold host (initial exer) events where
  known := by
    rintro front b back r rfl hnew hr
    obtain ⟨index, hin⟩ := h.entered_at hnew
    have hsent := sent_on_registration back hin (m := ⟨.stream, b.sock, .remoteServer, r⟩)
      (mem_append_left _ (mem_append_left _ (mem_map_of_mem hr))) h.meets_at.2.1
    refine h.times_one hsent (countedMsg_iff.mpr ⟨rfl, .inr ⟨rfl, ?_⟩⟩)
    exact (h.begins.ledger.rolls.remotes.other r hr).2
  new := by
    rintro front a r back rfl halive hold hnew
    rw [after_concat] at hnew
    have hnews : ((initial exer).after host front).News host r := by
      refine news_of_changed fun heq => hold ?_
      rw [← heq]
      exact hnew
    have hrolls := h.begins.ledger.rolls
    obtain ⟨entry, hentry, hlistens, rfl⟩ := hrolls.listens_of_alive halive
    have hlistening : entry.server ∈ (((initial exer).after host front).takeIn r).listening :=
      mem_listening.mpr ⟨entry, hentry, hlistens, rfl⟩
    have hsent := h.begins.sent_on_news back hnews
      (m := ⟨.stream, entry.server.sock, .remoteServer, r⟩)
      (mem_append_left _ (mem_append_left _ (mem_map_of_mem hlistening)))
      (hrolls.heard _ (hrolls.entered entry hentry).1)
    exact h.times_one hsent (countedMsg_iff.mpr ⟨rfl, .inr ⟨rfl, hnews.other⟩⟩)

theorem news_of_firstOfHost (h : FirstOfHost host s r) : s.News host r :=
  news_of_changed fun heq => h.1 (heq ▸ h.2)

section

variable (h : Proper host exer (front ++ .remServer r :: back))
  (hfirst : FirstOfHost host ((initial exer).after host front) r)

include h hfirst

theorem after_first : (initial exer).after host (front ++ [.remServer r]) =
      ((initial exer).after host front).takeIn r := by
  rw [after_concat]
  show (remServer host allSent _ r).coord = _
  rw [remServer_news h.begins.ledger.rolls.remotes (news_of_firstOfHost hfirst)]

theorem times_passed {addr : InAddr}
    (haddr : addr ∈ ((initial exer).after host (front ++ [.remServer r])).remoteAddr) :
    timesSent ((initial exer).sentOn host (front ++ .remServer r :: back))
      ⟨addr, host.comStreamPort⟩ .remoteServer r =
        if r.sock.addr = zero then 0 else 1 := by
  have hnews := news_of_firstOfHost hfirst
  have hrolls := h.begins.ledger.rolls
  rw [h.after_first hfirst] at haddr
  have hother : addr ∈ host.otherIps := by
    obtain ⟨id, hid, rfl⟩ := ((hrolls.remotes.takeIn hnews).addrs_exact addr).mp haddr
    exact ((hrolls.remotes.takeIn hnews).other id hid).2
  split
  · rename_i hzero
    refine count_eq_zero_of_not_mem fun hm => ?_
    rcases h.ledger.mail.remotes _ hm rfl rfl with hreg | ⟨-, ⟨x, hx, hdest⟩ | ⟨-, hne⟩⟩
    · exact h.ledger.rolls.ofHost r hreg hnews.other
    · refine h.ledger.rolls.ofHost x hx ?_
      rw [← hdest]
      exact hother
    · exact hne hzero
  · rename_i hzero
    have hsent := h.begins.sent_on_news back hnews
      (m := ⟨.stream, ⟨addr, host.comStreamPort⟩, .remoteServer, r⟩)
      (mem_append_right _ (by
        rw [decide_eq_true hfirst.1, if_pos rfl, replicate_takeIn hfirst.1, if_neg hzero]
        exact mem_map_of_mem haddr))
      (refuses_of_other hother _)
    exact h.times_one hsent (countedMsg_iff.mpr ⟨rfl, .inr ⟨rfl, hnews.other⟩⟩)

end

theorem passedOn_iff (h : Proper host exer events) : PassedOn host (initial exer) events <->
      forall front r back, events = front ++ .remServer r :: back ->
        FirstOfHost host ((initial exer).after host front) r ->
        r.sock.addr = zero ∧ ((initial exer).after host front).remoteAddr = [] := by
  constructor
  · rintro hpassed front r back rfl hfirst
    obtain ⟨hothers, hback⟩ := hpassed front r back rfl hfirst
    have hself : r.sock.addr ∈
        ((initial exer).after host (front ++ [.remServer r])).remoteAddr := by
      rw [after_concat]
      exact hfirst.2
    have hzero : r.sock.addr = zero := by
      by_contra hne
      rw [h.times_passed hfirst hself, if_neg hne] at hback
      cases hback
    refine ⟨hzero, eq_nil_iff_forall_not_mem.mpr fun addr haddr => ?_⟩
    have hstill : addr ∈
        ((initial exer).after host (front ++ [.remServer r])).remoteAddr := by
      rw [h.after_first hfirst]
      exact mem_withAddr.mpr (.inl haddr)
    have honce := hothers addr hstill (fun heq => hfirst.1 (heq ▸ haddr))
    rw [h.times_passed hfirst hstill, if_pos hzero] at honce
    cases honce
  · rintro hzero front r back rfl hfirst
    obtain ⟨hz, hnil⟩ := hzero front r back rfl hfirst
    have haddrs : ((initial exer).after host (front ++ [.remServer r])).remoteAddr =
        [r.sock.addr] := by
      rw [h.after_first hfirst]
      show withAddr _ _ = _
      rw [hnil]
      rfl
    constructor
    · intro addr haddr hne
      rw [haddrs] at haddr
      exact absurd (mem_singleton.mp haddr) hne
    · rw [h.times_passed hfirst (haddrs ▸ mem_singleton_self _), if_pos hz]

end Proper

/-- The servers of a run learn of each other once, and of the remote servers.  What makes a
host known goes to every known host, and so it comes back to where it was sent from: this
is as it should be only if the address is 0.0.0.0 and no host is known. -/
theorem servers_told_once (h : Proper host exer events) :
    LocalsTold host (initial exer) events ∧
    RemotesTold host (initial exer) events ∧
    (PassedOn host (initial exer) events <->
      forall front r back, events = front ++ .remServer r :: back ->
        FirstOfHost host ((initial exer).after host front) r ->
        r.sock.addr = InAddr.zero ∧ ((initial exer).after host front).remoteAddr = []) :=
  ⟨h.localsTold, h.remotesTold, h.passedOn_iff⟩

end

def twoSystems : Host where
  oneSysFlag := false
  otherIps := [⟨10, 0, 0, 2⟩]
  hostCnt_le := Nat.le_of_ble_eq_true rfl
  mynetid := 1
  localAddr := ⟨10, 0, 0, 1⟩
  comStreamPort := 5101
  broadcastDest := ⟨⟨10, 0, 0, 255⟩, 5102⟩

def twoExers : List Exer :=
  [⟨serverAt 40001, false, false⟩, ⟨serverAt 40002, false, false⟩]

def farServer : ServerId :=
  serverOn ⟨10, 0, 0, 2⟩ 40001

def inOrder : List CoordEvent :=
  [.localServer (serverAt 40001), .remServer farServer, .localServer (serverAt 40002), .die 0,
    .localExerTerm (serverAt 40002)]

instance (s : Coord) (e : CoordEvent) : Decidable (e.EndsLast s) :=
  match e with
  | .localExerTerm _ => inferInstanceAs (Decidable (List.Pairwise _ _))
  | .localServer _ | .remServer _ | .remoteExerTerm _ | .broadcastLocals | .start _ | .die _ =>
    isTrue trivial

instance (host : Host) (s : Coord) (e : CoordEvent) : Decidable (e.Meets host s) :=
  match e with
  | .localServer _ => inferInstanceAs (Decidable (_ ∧ _ ∧ _))
  | .localExerTerm id => inferInstanceAs (Decidable ((CoordEvent.localExerTerm id).EndsLast s))
  | .remServer _ | .remoteExerTerm _ | .broadcastLocals | .start _ | .die _ => isTrue trivial

theorem inOrder_proper : Proper twoSystems twoExers inOrder where
  fresh := by
    unfold Fresh
    decide
  course := ⟨by decide, fun id hid => by simp [inOrder] at hid⟩
  meets := by decide +kernel

theorem inOrder_told : Proper twoSystems twoExers inOrder ∧
      LocalsTold twoSystems (initial twoExers) inOrder ∧
      RemotesTold twoSystems (initial twoExers) inOrder :=
  ⟨inOrder_proper, (servers_told_once inOrder_proper).1, (servers_told_once inOrder_proper).2.1⟩

/-- The second exerciser registers before the first one, and neither is told of the other:
the new server has the number of the position that the other one stands at.  And the first
message of the other host is passed back to it. -/
theorem neither_told_and_passed_back : ¬ LocalsTold twoSystems (initial twoExers)
      [.localServer (serverAt 40002), .localServer (serverAt 40001)] ∧
    ¬ PassedOn twoSystems (initial twoExers) [.remServer farServer] := by
  constructor
  · intro h
    have hboth := h.both [.localServer (serverAt 40002)] (serverAt 40002) (serverAt 40001) [] rfl
      ⟨⟨⟨serverAt 40002, 1⟩, mem_singleton_self _, rfl⟩, _, rfl, rfl⟩
      ⟨⟨⟨serverAt 40001, 0⟩, mem_cons_of_mem _ (mem_singleton_self _), rfl⟩, _, rfl, rfl⟩
    have hnone : timesSent ((initial twoExers).sentOn twoSystems
        [.localServer (serverAt 40002), .localServer (serverAt 40001)])
        (serverAt 40002).sock .localServer (serverAt 40001) = 0 := by decide +kernel
    rw [hnone] at hboth
    exact absurd hboth.1 zero_ne_one
  · intro h
    have hback := (h [] farServer [] rfl ⟨not_mem_nil, mem_singleton_self _⟩).2
    have hone : timesSent ((initial twoExers).sentOn twoSystems [.remServer farServer])
        ⟨farServer.sock.addr, twoSystems.comStreamPort⟩ .remoteServer farServer = 1 := by
      decide +kernel
    exact absurd (hone.symm.trans hback) one_ne_zero

end Htx.Hxecom
