import Mathlib.Data.List.Basic

/-!
# Datagrams

The network is the list of the datagrams that are under way.  Neither `DWrite` nor `DRead`
stops at the end of a packet: the one sends a datagram of no bytes behind it, and the other
takes one more datagram off the network.
-/

namespace Htx.Hxecom

open List

abbrev Datagram := List UInt8

/-- `DWrite` with `left` of `nbytes` bytes still to send.  A call of `send` makes one
datagram of all of them. -/
def dWrite (nbytes : Nat) (left : List UInt8) (net : List Datagram) : Int × List Datagram :=
  if 0 < left.length then dWrite nbytes (left.drop left.length) (net ++ [left])
  else if nbytes = left.length then (-1, net ++ [left])
  else (nbytes - left.length, net ++ [left])
termination_by left.length
decreasing_by
  rw [drop_length]
  assumption

/-- `DRead` with `buf` read so far.  It waits for ever if no datagram is left. -/
def dRead (nleft : Nat) (buf : List UInt8) :
    List Datagram -> Option (Int × List UInt8 × List Datagram)
  | [] => none
  | datagram :: net =>
    if 0 < min nleft datagram.length then
      dRead (nleft - min nleft datagram.length) (buf ++ datagram.take nleft) net
    else some (-1, buf, net)

def writePackets : List Datagram -> List Datagram -> List Int × List Datagram
  | [], net => ([], net)
  | packet :: rest, net =>
    let (rc, net) := dWrite packet.length packet net
    let (rcs, net) := writePackets rest net
    (rc :: rcs, net)

def readPackets : List Nat -> List Datagram -> Option (List (Int × List UInt8))
  | [], _ => some []
  | pakLen :: rest, net => do
    let (rc, buf, net) <- dRead pakLen [] net
    let reads <- readPackets rest net
    some ((rc, buf) :: reads)

structure BoundariesKept (packets : List Datagram) : Prop where
  written : forall packet, packet ∈ packets -> forall net,
    dWrite packet.length packet net = ((packet.length : Int), net ++ [packet])
  read : readPackets (packets.map List.length) (writePackets packets []).2 =
    some (packets.map fun packet => ((packet.length : Int), packet))

section

variable {packet : Datagram} (hpos : 0 < packet.length) (net : List Datagram)

include hpos

theorem dWrite_packet : dWrite packet.length packet net =
    ((packet.length : Int), net ++ [packet, []]) := by
  rw [dWrite, if_pos hpos, drop_length, dWrite, length_nil, if_neg (Nat.lt_irrefl 0),
    if_neg (Nat.ne_of_gt hpos), append_assoc]
  simp

theorem dRead_packet : dRead packet.length [] (packet :: [] :: net) = some (-1, packet, net) := by
  rw [dRead, Nat.min_self, if_pos hpos, take_length, dRead, length_nil, Nat.min_zero,
    if_neg (Nat.lt_irrefl 0)]
  rfl

end

variable {packets : List Datagram}

theorem writePackets_eq (h : forall packet, packet ∈ packets -> 0 < packet.length)
    (net : List Datagram) : writePackets packets net =
      (packets.map fun packet => (packet.length : Int),
        net ++ packets.flatMap fun packet => [packet, []]) := by
  induction packets generalizing net with
  | nil => simp [writePackets]
  | cons packet rest ih =>
    obtain ⟨hpos, hrest⟩ := forall_mem_cons.mp h
    rw [writePackets, dWrite_packet hpos]
    simp only [ih hrest, map_cons, flatMap_cons, append_assoc]

theorem readPackets_eq (h : forall packet, packet ∈ packets -> 0 < packet.length) :
    readPackets (packets.map List.length) (packets.flatMap fun packet => [packet, []]) =
      some (packets.map fun packet => (-1, packet)) := by
  induction packets with
  | nil => rfl
  | cons packet rest ih =>
    obtain ⟨hpos, hrest⟩ := forall_mem_cons.mp h
    rw [map_cons, flatMap_cons, readPackets]
    simp only [cons_append, nil_append, dRead_packet hpos, Option.bind_eq_bind,
      Option.bind_some, ih hrest, map_cons]

/-- Every packet is a good write, and its bytes reach the reader; but none is a good read. -/
theorem datagrams_written_and_read (packets : List Datagram)
    (h : forall packet, packet ∈ packets -> 1 ≤ packet.length ∧ packet.length ≤ 65507) :
    writePackets packets [] = (packets.map fun packet => (packet.length : Int),
        packets.flatMap fun packet => [packet, []]) ∧
      readPackets (packets.map List.length) (writePackets packets []).2 =
        some (packets.map fun packet => (-1, packet)) ∧
      (BoundariesKept packets <-> packets = []) := by
  have hpos : forall packet, packet ∈ packets -> 0 < packet.length := fun _ hm => (h _ hm).1
  have hwrite := writePackets_eq hpos []
  have hread := readPackets_eq hpos
  rw [hwrite]
  refine ⟨rfl, hread, fun hkept => ?_, ?_⟩
  · rw [eq_nil_iff_forall_not_mem]
    intro packet hm
    have hone := hkept.written packet hm []
    rw [dWrite_packet (hpos packet hm)] at hone
    cases hone
  · rintro rfl
    exact ⟨fun _ hm => absurd hm not_mem_nil, rfl⟩

theorem one_byte_written_and_read :
    writePackets [[7]] [] = ([1], [[7], []]) ∧
      readPackets [1] [[7], []] = some [(-1, [7])] := by
  have h := datagrams_written_and_read [[7]] (by decide)
  refine ⟨h.1, ?_⟩
  have hread := h.2.1
  rw [h.1] at hread
  exact hread

theorem one_byte_not_kept : ¬ BoundariesKept [[7]] := by
  intro h
  have hone := h.written [7] (mem_singleton_self _) []
  rw [@dWrite_packet [7] (by decide)] at hone
  cases hone

end Htx.Hxecom
