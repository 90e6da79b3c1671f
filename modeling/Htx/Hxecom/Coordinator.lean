import Mathlib
import Htx.Library.EventSystem

/-!
# The coordinator

Every host runs a coordinator.  The servers of the local exercisers register with it, and
it hears of the servers of other hosts.
-/

namespace Htx.Hxecom

/-!
# Messages
-/

structure InAddr where
  octet1 : Nat
  octet2 : Nat
  octet3 : Nat
  octet4 : Nat
  deriving DecidableEq

def InAddr.zero : InAddr :=
  ⟨0, 0, 0, 0⟩

structure SockAddr where
  addr : InAddr
  port : Nat
  deriving DecidableEq

structure ServerId where
  nettype : Nat
  replicates : Nat
  transact : Nat
  exerVersion : Nat
  thePid : Nat
  sock : SockAddr
  deriving DecidableEq

inductive MsgType where
  | localServer
  | remoteServer
  | remoteExerTerm
  deriving DecidableEq

inductive Transport where
  | stream
  | dgram
  deriving DecidableEq

structure Sent where
  transport : Transport
  dest : SockAddr
  msgType : MsgType
  server : ServerId
  deriving DecidableEq

/-- What becomes of a message that `SendStreamMsg` tries to send.  If the connection is
made and writing fails, the message is lost and the result is 0 all the same. -/
inductive SendRc where
  | sent
  | lost
  | failed
  deriving DecidableEq

/-!
# Shared memory
-/

def MAXREMOTE : Nat := 50
def MAXOTHERS : Nat := 8
def MAXADDR : Nat := 10
def MAXLOCAL : Nat := 256

/-- The ids in `other_ids` are addresses if they have a dot, and last octets on the subnet of
this host if not.  Nothing stops the stores at the end of `Other_ips`: `none` if one goes behind
it.  The result of `inet_addr` is unsigned, and the test for an error never holds. -/
def setUpOtherHosts (inetAddr : String -> InAddr) (thisSaveId subnetbase com4 : String) :
    List String -> List InAddr -> Option (List InAddr)
  | [], otherIps => some otherIps
  | id :: ids, otherIps =>
    let fullip := id.contains '.'
    if id = (if fullip then thisSaveId else com4) then
      setUpOtherHosts inetAddr thisSaveId subnetbase com4 ids otherIps
    else if otherIps.length = MAXOTHERS then none
    else
      setUpOtherHosts inetAddr thisSaveId subnetbase com4 ids
        (otherIps ++ [inetAddr (if fullip then id else subnetbase ++ id)])

/-- The bound that every host has once its other hosts are set up. -/
theorem setUpOtherHosts_length_le {inetAddr : String -> InAddr}
    {thisSaveId subnetbase com4 : String} {ids : List String} {otherIps ips : List InAddr}
    (hle : otherIps.length ≤ MAXOTHERS)
    (h : setUpOtherHosts inetAddr thisSaveId subnetbase com4 ids otherIps = some ips) :
    ips.length ≤ MAXOTHERS := by
  induction ids generalizing otherIps with
  | nil =>
    cases h
    exact hle
  | cons id ids ih =>
    simp only [setUpOtherHosts] at h
    by_cases hsame : id = if id.contains '.' then thisSaveId else com4
    · rw [if_pos hsame] at h
      exact ih hle h
    · rw [if_neg hsame] at h
      obtain ⟨hroom, h⟩ := Option.ite_none_left_eq_some.mp h
      refine ih ?_ h
      rw [List.length_append, List.length_singleton]
      omega

structure Host where
  oneSysFlag : Bool
  otherIps : List InAddr
  hostCnt_le : otherIps.length ≤ MAXOTHERS
  mynetid : Nat
  localAddr : InAddr
  comStreamPort : Nat
  broadcastDest : SockAddr

structure Exer where
  serverID : ServerId
  deadFlag : Bool
  serverIDinit : Bool
  deriving DecidableEq

structure LocalEntry where
  server : ServerId
  exerNo : Nat
  deriving DecidableEq

structure Coord where
  remoteIDs : List ServerId
  remoteAddr : List InAddr
  locals : List LocalEntry
  exer : List Exer
  deriving DecidableEq

def ServerId.port (id : ServerId) : Nat :=
  id.sock.port

/-!
# Sending
-/

namespace Host

variable (host : Host)

def cantConnect (addr : InAddr) : Bool :=
  addr.octet4 ≠ host.mynetid && !host.otherIps.any fun ip => ip.octet4 = addr.octet4

def refuses (dest : SockAddr) : Bool :=
  !host.oneSysFlag && host.cantConnect dest.addr

/-- Calls of `SendStreamMsg` in turn, up to the first that fails; `rc n` is what becomes of
the `n`-th message.  The result says what was sent, and whether all calls returned 0. -/
def sendAll (rc : Nat -> SendRc) : Nat -> List Sent -> List Sent × Bool
  | _, [] => ([], true)
  | n, msg :: rest =>
    if host.refuses msg.dest then sendAll rc n rest
    else
      match rc n with
      | .sent => (msg :: (sendAll rc (n + 1) rest).1, (sendAll rc (n + 1) rest).2)
      | .lost => sendAll rc (n + 1) rest
      | .failed => ([], false)

def broadcastMsg (msgType : MsgType) (server : ServerId) : List Sent :=
  if host.oneSysFlag then [⟨.dgram, host.broadcastDest, msgType, server⟩]
  else
    host.otherIps.map fun ip => ⟨.dgram, ⟨ip, host.broadcastDest.port⟩, msgType, server⟩

end Host

/-!
# Deleting from a table
-/

section

variable {α : Type}

def copyEntry (table : List α) (src dst : Nat) : List α :=
  match table[src]? with
  | some x => table.set dst x
  | none => table

def copyDown (table : List α) (index n : Nat) : List α :=
  (List.range' index n).foldl (fun t i => copyEntry t (i + 1) i) table

def copyUp (table : List α) (index n : Nat) : List α :=
  (List.range' index n).foldl (fun t i => copyEntry t i (i + 1)) table

def shiftDown (table : List α) (index : Nat) : List α :=
  (copyDown table index (table.length - 1 - index)).dropLast

def shiftUp (table : List α) (index : Nat) : List α :=
  (copyUp table index (table.length - 1 - index)).dropLast

end

open LocalEntry

def removeLocal (locals : List LocalEntry) (index : Nat) : List LocalEntry :=
  List.zipWith mk (shiftDown (locals.map server) index)
    (shiftUp (locals.map exerNo) index)

/-!
# Handlers
-/

structure Handled where
  coord : Coord
  sent : List Sent
  ended : Bool
  deriving DecidableEq

namespace Coord

variable (host : Host) (rc : Nat -> SendRc) (s : Coord)

def listens (entry : LocalEntry) : Bool :=
  match s.exer[entry.exerNo]? with
  | some e => e.serverIDinit && !e.deadFlag
  | none => false

/-- The other local servers that `LocalServer` informs.  In a test of several systems it
leaves out the position in the local table that is equal to the number of the new
exerciser. -/
def informed (index : Nat) : List ServerId :=
  (s.locals.zipIdx.filter fun (entry, i) =>
    s.listens entry && (host.oneSysFlag || decide (index ≠ i))).map fun x => x.1.server

def localServerMsgs (index : Nat) (id : ServerId) : List Sent :=
  (s.remoteIDs.map fun r => ⟨.stream, id.sock, .remoteServer, r⟩) ++
    ((s.informed host index).map fun other => ⟨.stream, other.sock, .localServer, id⟩) ++
    ((s.informed host index).map fun other => ⟨.stream, id.sock, .localServer, other⟩)

def enterLocal (index : Nat) (id : ServerId) : Coord :=
  { s with locals := s.locals ++ [⟨id, index⟩] }

def setInit (index : Nat) : Coord :=
  { s with exer := s.exer.modify index fun e => { e with serverIDinit := true } }

def localServer (id : ServerId) : Handled :=
  match s.exer.findIdx? fun e => e.serverID.port = id.port with
  | none => ⟨s, [], false⟩
  | some index =>
    if MAXLOCAL ≤ s.locals.length then ⟨s, [], true⟩
    else
      let s' := s.enterLocal index id
      let (sent, ok) := host.sendAll rc 0 (s'.localServerMsgs host index id)
      if ok then ⟨s'.setInit index, sent ++ host.broadcastMsg .remoteServer id, false⟩
      else ⟨s', sent, true⟩

def newRemoteAddr (addr : InAddr) : Option (Bool × Coord) :=
  if host.localAddr = addr then some (false, s)
  else if addr ∈ s.remoteAddr then some (false, s)
  else if MAXADDR ≤ s.remoteAddr.length then none
  else some (true, { s with remoteAddr := s.remoteAddr ++ [addr] })

def replicate (id : ServerId) : InAddr -> List InAddr -> List Sent
  | _, [] => []
  | dest, addr :: rest =>
    if dest = id.sock.addr then replicate id dest rest
    else ⟨.stream, ⟨addr, host.comStreamPort⟩, .remoteServer, id⟩ :: replicate id addr rest

def listening : List ServerId :=
  (s.locals.filter s.listens).map server

def remServerMsgs (newCoord : Bool) (id : ServerId) : List Sent :=
  (s.listening.map fun a => ⟨.stream, a.sock, .remoteServer, id⟩) ++ (s.listening.map fun a =>
      ⟨.stream, ⟨id.sock.addr, host.comStreamPort⟩, .remoteServer, a⟩) ++
    if newCoord then replicate host id InAddr.zero s.remoteAddr else []

def enterRemote (id : ServerId) : Coord :=
  { s with remoteIDs := s.remoteIDs ++ [id] }

def remServer (id : ServerId) : Handled :=
  if id.sock.addr = host.localAddr then ⟨s, [], false⟩
  else if s.remoteIDs.any fun r => r.sock = id.sock then ⟨s, [], false⟩
  else if id.sock.addr ∉ host.otherIps then ⟨s, [], false⟩
  else if s.remoteIDs.length = MAXREMOTE then ⟨s, [], false⟩
  else
    match (s.enterRemote id).newRemoteAddr host id.sock.addr with
    | none => ⟨s.enterRemote id, [], true⟩
    | some (newCoord, s') =>
      let (sent, ok) := host.sendAll rc 0 (s'.remServerMsgs host newCoord id)
      ⟨s', sent, !ok⟩

def localExerTerm (id : ServerId) : Handled :=
  match s.locals.findIdx? fun entry => entry.server.port = id.port with
  | none => ⟨s, [], false⟩
  | some index =>
    let s' := { s with locals := removeLocal s.locals index }
    let (sent, ok) := host.sendAll rc 0
      (s'.remoteAddr.map fun addr =>
        ⟨.stream, ⟨addr, host.comStreamPort⟩, .remoteExerTerm, id⟩)
    ⟨s', sent, !ok⟩

def removeRemoteAddr (addr : InAddr) : Coord :=
  match s.remoteAddr.findIdx? fun a => a = addr with
  | none => s
  | some index => { s with remoteAddr := shiftDown s.remoteAddr index }

def remoteExerTerm (id : ServerId) : Handled :=
  match s.remoteIDs.findIdx? fun r => r.sock = id.sock with
  | none => ⟨s, [], false⟩
  | some index =>
    let s' := { s with remoteIDs := shiftDown s.remoteIDs index }
    if s'.remoteIDs.any fun r => r.sock.addr = id.sock.addr then ⟨s', [], false⟩
    else ⟨s'.removeRemoteAddr id.sock.addr, [], false⟩

def broadcastLocals : Handled :=
  ⟨s, s.locals.flatMap fun entry => host.broadcastMsg .remoteServer entry.server, false⟩

end Coord

/-!
# Runs
-/

inductive CoordEvent where
  | localServer (id : ServerId)
  | remServer (id : ServerId)
  | localExerTerm (id : ServerId)
  | remoteExerTerm (id : ServerId)
  | broadcastLocals
  | start (id : ServerId)
  | die (exerNo : Nat)
  deriving DecidableEq

namespace Coord

def start (s : Coord) (id : ServerId) : Coord :=
  { s with exer := s.exer ++ [⟨id, false, false⟩] }

def die (s : Coord) (exerNo : Nat) : Coord :=
  { s with exer := s.exer.modify exerNo fun e => { e with deadFlag := true } }

def handle (host : Host) (rc : Nat -> SendRc) (s : Coord) : CoordEvent -> Handled
  | .localServer id => s.localServer host rc id
  | .remServer id => s.remServer host rc id
  | .localExerTerm id => s.localExerTerm host rc id
  | .remoteExerTerm id => s.remoteExerTerm id
  | .broadcastLocals => s.broadcastLocals host
  | .start id => ⟨s.start id, [], false⟩
  | .die exerNo => ⟨s.die exerNo, [], false⟩

/-- Whether the handler of a message runs in a process of its own.  For a remote server this
is decided by a look at the table without the semaphore. -/
def shouldFork (host : Host) (s : Coord) : CoordEvent -> Bool
  | .remServer id =>
    decide (id.sock.addr ≠ host.localAddr) && !s.remoteIDs.any fun r => r.sock = id.sock
  | .localServer _ => true
  | .localExerTerm _ => true
  | .remoteExerTerm _ => true
  | .broadcastLocals => true
  | .start _ => false
  | .die _ => false

def initial (exer : List Exer) : Coord :=
  ⟨[], [], [], exer⟩

end Coord

end Htx.Hxecom
