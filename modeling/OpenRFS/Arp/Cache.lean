import OpenRFS.Tcp.Connection

/-!
# The ARP cache

Eight entries hold the hardware addresses of neighbours. An address that is not
known is asked for: its entry is pending until a packet from the address arrives.
A caller outside the service loop waits for this with the entry in hand and drives
the service loop itself; a send that a received frame raises only asks.

The frames that go out and the counters of the statistics never come back into the
cache and are left out. The clock, the frames that arrive and the success of a send
are handed in.
-/

namespace OpenRFS.Arp

open Tcp (NetworkStatus)

abbrev Mac := Bytes

abbrev Slot := Fin 8

inductive EntryState
  | empty | pending | valid
  deriving DecidableEq, Repr

structure Entry where
  address : UInt32
  mac : Mac
  expires : UInt64
  configurationGeneration : UInt64
  deviceGeneration : UInt64
  state : EntryState
  deriving DecidableEq, Repr

def Entry.zero : Entry := ⟨0, [0, 0, 0, 0, 0, 0], 0, 0, 0, .empty⟩

structure Binding where
  address : UInt32
  mac : Mac
  configurationGeneration : UInt64
  deviceGeneration : UInt64
  deriving DecidableEq, Repr

def Entry.binding (e : Entry) : Binding :=
  ⟨e.address, e.mac, e.configurationGeneration, e.deviceGeneration⟩

/-- What the cache is observed by: the packets it accepts and the answers it gives. -/
inductive Happening
  | accepted (binding : Binding)
  | answered (binding : Binding)
  deriving DecidableEq, Repr

/-- The part of `struct network_runtime` the cache depends on, and what happened so
far, the latest first. -/
structure Runtime where
  entries : Slot → Entry
  configured : Bool
  address : UInt32
  configurationGeneration : UInt64
  mac : Mac
  deviceGeneration : UInt64
  log : List Happening

def Runtime.bind (s : Runtime) (address : UInt32) (mac : Mac) : Binding :=
  ⟨address, mac, s.configurationGeneration, s.deviceGeneration⟩

def Runtime.current (s : Runtime) (e : Entry) : Bool :=
  e.configurationGeneration == s.configurationGeneration &&
    e.deviceGeneration == s.deviceGeneration

def Runtime.setEntry (s : Runtime) (k : Slot) (e : Entry) : Runtime :=
  { s with entries := Function.update s.entries k e }

def Runtime.setState (s : Runtime) (k : Slot) (state : EntryState) : Runtime :=
  s.setEntry k { s.entries k with state := state }

def Runtime.note (s : Runtime) (h : Happening) : Runtime := { s with log := h :: s.log }

def lifetime : UInt64 := 60000000000

def retryCount : ℕ := 3

def broadcastAddress : UInt32 := 0xFFFFFFFF

def broadcastMac : Mac := [0xFF, 0xFF, 0xFF, 0xFF, 0xFF, 0xFF]

def ipv4IsMulticast (address : UInt32) : Bool := address &&& 0xF0000000 == 0xE0000000

def ipv4IsUnicast (address : UInt32) : Bool :=
  address != 0 && address != broadcastAddress && !ipv4IsMulticast address &&
    address &&& 0xFF000000 != 0x7F000000

def deadlineValid (timeout : UInt64) : Bool := timeout != 0 && decide (timeout ≤ 30000000000)

def macIsBroadcast (mac : Mac) : Bool := mac == broadcastMac

def macIsZero (mac : Mac) : Bool := mac == [0, 0, 0, 0, 0, 0]

def macIsMulticast (mac : Mac) : Bool := mac.headD 0 &&& 1 != 0

def arpInvalidate (s : Runtime) : Runtime := { s with entries := fun _ => .zero }

def Runtime.outdated (s : Runtime) (now : UInt64) (e : Entry) : Bool :=
  e.state != .empty && (!s.current e || e.state == .valid && decide (e.expires ≤ now))

def arpAge (now : UInt64) (s : Runtime) : Runtime :=
  { s with entries := fun k => if s.outdated now (s.entries k) then .zero else s.entries k }

def Runtime.holds (s : Runtime) (address : UInt32) (k : Slot) : Bool :=
  (s.entries k).state != .empty && (s.entries k).address == address && s.current (s.entries k)

def arpFind (now : UInt64) (address : UInt32) (s : Runtime) : Option Slot × Runtime :=
  ((List.finRange 8).find? ((arpAge now s).holds address), arpAge now s)

/-- The loop of `arp_slot`: the first empty entry, or else the one that expires
first. A pending entry has no expiry yet, that is expiry zero. -/
def oldestEntry (entries : Slot → Entry) (oldest : Slot) : List Slot → Slot
  | [] => oldest
  | k :: ks =>
    if (entries k).state = .empty then k
    else oldestEntry entries
      (if (entries k).expires < (entries oldest).expires then k else oldest) ks

def arpSlot (address : UInt32) (s : Runtime) : Slot × Runtime :=
  let oldest := oldestEntry s.entries 0 (List.finRange 8)
  (oldest, s.setEntry oldest { Entry.zero with
    address := address
    configurationGeneration := s.configurationGeneration
    deviceGeneration := s.deviceGeneration })

/-- `arp_resolve` up to the point where the answer is known or has to be waited for
in an entry. -/
def arpLookup (now timeout : UInt64) (address : UInt32) (s : Runtime) :
    (Except NetworkStatus Mac ⊕ Slot) × Runtime :=
  if address = broadcastAddress then (.inl (.ok broadcastMac), s)
  else if !s.configured || !ipv4IsUnicast address || !deadlineValid timeout then
    (.inl (.error .invalidArgument), s)
  else
    match arpFind now address s with
    | (some k, s) =>
      if (s.entries k).state = .valid then
        (.inl (.ok (s.entries k).mac), s.note (.answered (s.bind address (s.entries k).mac)))
      else (.inr k, s.setState k .pending)
    | (none, s) =>
      let (k, s) := arpSlot address s
      (.inr k, s.setState k .pending)

def arpDefer (now timeout : UInt64) (address : UInt32) (s : Runtime) :
    Except NetworkStatus Mac × Runtime :=
  match arpLookup now timeout address s with
  | (.inl answer, s) => (answer, s)
  | (.inr _, s) => (.error .wouldBlock, s)

def readBe (bytes : Bytes) (offset width : ℕ) : ℕ :=
  ((bytes.drop offset).take width).foldl (fun n b => 256 * n + b.toNat) 0

structure Packet where
  operation : ℕ
  senderMac : Mac
  senderAddress : UInt32
  targetMac : Mac
  targetAddress : UInt32
  deriving DecidableEq, Repr

def packetBytes : ℕ := 28

def operationRequest : ℕ := 1
def operationReply : ℕ := 2

def Packet.read (bytes : Bytes) : Option Packet :=
  if bytes.length < packetBytes || readBe bytes 0 2 != 1 || readBe bytes 2 2 != 0x0800 ||
      readBe bytes 4 1 != 6 || readBe bytes 5 1 != 4 then none
  else
    some {
      operation := readBe bytes 6 2
      senderMac := (bytes.drop 8).take 6
      senderAddress := UInt32.ofNat (readBe bytes 14 4)
      targetMac := (bytes.drop 18).take 6
      targetAddress := UInt32.ofNat (readBe bytes 24 4) }

/-- The other checks of `arp_receive_packet`: a sender that can be one, nobody else
under the own address, and replies only to the own question. -/
def Packet.acceptable (s : Runtime) (source : Mac) (p : Packet) : Bool :=
  (p.operation == operationRequest || p.operation == operationReply) &&
    !macIsZero p.senderMac && !macIsBroadcast p.senderMac && !macIsMulticast p.senderMac &&
    p.senderMac == source && ipv4IsUnicast p.senderAddress &&
    !(s.configured && p.senderAddress == s.address && p.senderMac != s.mac) &&
    !(p.operation == operationReply &&
      (!s.configured || p.targetAddress != s.address || p.targetMac != s.mac))

structure Readings where
  found : UInt64
  stamped : UInt64
  aged : UInt64
  deriving DecidableEq, Repr

def arpAccept (clock : Readings) (p : Packet) (s : Runtime) : Runtime :=
  match arpFind clock.found p.senderAddress
    (s.note (.accepted (s.bind p.senderAddress p.senderMac))) with
  | (none, s) => s
  | (some k, s) =>
    if (s.entries k).state = .pending then
      arpAge clock.aged (s.setEntry k { s.entries k with
        mac := p.senderMac
        expires := clock.stamped + lifetime
        state := .valid })
    else s

def arpReceivePacket (clock : Readings) (source : Mac) (bytes : Bytes) (s : Runtime) : Runtime :=
  match Packet.read bytes with
  | none => s
  | some p => if p.acceptable s source then arpAccept clock p s else s

/-!
## Waiting for an answer

`arp_resolve` outside the service loop keeps the entry it asked with while it drives
the service loop. That loop receives packets, runs the sends they raise, and may
change the configuration or the device.
-/

/-- What the service loop does to the cache after it has read the device: a packet,
a send that a frame or a timer raises, and the end or the renewal of a lease. -/
inductive Event
  | packet (clock : Readings) (source : Mac) (bytes : Bytes)
  | send (now timeout : UInt64) (address : UInt32)
  | applyLease (address : UInt32)
  | discardLease
  deriving DecidableEq, Repr

def dhcpDiscardLease (s : Runtime) : Runtime :=
  arpInvalidate { s with
    configured := false
    address := 0
    configurationGeneration := s.configurationGeneration + 1 }

/-- `dhcp_apply_lease` and `network_configure_static`, once the configuration is
found valid. -/
def applyConfiguration (address : UInt32) (s : Runtime) : Runtime :=
  arpInvalidate { s with
    configured := true
    address := address
    configurationGeneration := s.configurationGeneration + 1 }

def handle (s : Runtime) : Event → Runtime
  | .packet clock source bytes => arpReceivePacket clock source bytes s
  | .send now timeout address => (arpDefer now timeout address s).2
  | .applyLease address => applyConfiguration address s
  | .discardLease => dhcpDiscardLease s

structure Device where
  mac : Mac
  generation : UInt64
  deriving DecidableEq, Repr

def Runtime.readDevice (s : Runtime) (device : Device) : Runtime :=
  { s with mac := device.mac, deviceGeneration := device.generation }

/-- One turn of the service loop: the device was reset, it does not work, or it has
delivered frames. -/
inductive Pump
  | reset (device : Device)
  | failed
  | frames (device : Device) (events : List Event)
  deriving DecidableEq, Repr

def networkService (s : Runtime) : Pump → Runtime
  | .reset device => dhcpDiscardLease (s.readDevice device)
  | .failed => s
  | .frames device events => events.foldl handle (s.readDevice device)

/-- One turn of the inner loop of `arp_resolve`: the service loop runs, and unless
the time is up the wait for an interrupt works or does not. -/
structure Turn where
  pump : Pump
  wakes : Bool
  deriving DecidableEq, Repr

/-- One attempt: whether the request could be sent, and the turns before its end. -/
structure Attempt where
  requested : Bool
  turns : List Turn
  deriving DecidableEq, Repr

/-- The inner loop of `arp_resolve`. There is no result if it runs to its end. -/
def awaitTurns (address : UInt32) (k : Slot) (s : Runtime) :
    List Turn → Option (Except NetworkStatus Mac) × Runtime
  | [] => (none, s)
  | turn :: turns =>
    let s := networkService s turn.pump
    if (s.entries k).state = .valid then
      (some (.ok (s.entries k).mac), s.note (.answered (s.bind address (s.entries k).mac)))
    else if !turn.wakes then (some (.error .noResources), s.setState k .empty)
    else awaitTurns address k s turns

def awaitAttempts (address : UInt32) (k : Slot) (s : Runtime) :
    List Attempt → Except NetworkStatus Mac × Runtime
  | [] => (.error .timeout, s.setState k .empty)
  | attempt :: attempts =>
    if !attempt.requested then awaitAttempts address k s attempts
    else
      match awaitTurns address k s attempt.turns with
      | (some result, s) => (result, s)
      | (none, s) => awaitAttempts address k s attempts

/-- `arp_resolve` outside the service loop; `timer` says whether a timer is free. -/
def arpResolve (now timeout : UInt64) (address : UInt32) (timer : Bool) (attempts : List Attempt)
    (s : Runtime) : Except NetworkStatus Mac × Runtime :=
  match arpLookup now timeout address s with
  | (.inl answer, s) => (answer, s)
  | (.inr k, s) =>
    if !timer then (.error .noResources, s)
    else awaitAttempts address k s (attempts.take retryCount)

inductive Call
  | resolve (now timeout : UInt64) (address : UInt32) (timer : Bool) (attempts : List Attempt)
  | service (pump : Pump)
  | configure (address : UInt32)
  | reset (device : Device)
  deriving DecidableEq, Repr

def step (s : Runtime) : Call → Runtime
  | .resolve now timeout address timer attempts =>
    (arpResolve now timeout address timer attempts s).2
  | .service pump => networkService s pump
  | .configure address => applyConfiguration address s
  | .reset device => dhcpDiscardLease (s.readDevice device)

def run (s : Runtime) (calls : List Call) : Runtime := calls.foldl step s

def start (generation : UInt64) (device : Device) : Runtime where
  entries := fun _ => .zero
  configured := false
  address := 0
  configurationGeneration := generation
  mac := device.mac
  deviceGeneration := device.generation
  log := []

end OpenRFS.Arp
