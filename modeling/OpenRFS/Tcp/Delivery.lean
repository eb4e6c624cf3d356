import OpenRFS.Tcp.Stream

/-!
# What the peer of a TCP connection gets

The callers of `network_tcp_write` hand over one stream, piece by piece: each call
gets the bytes behind those that the calls before have reported as written. The peer
receives any of the segments, in any order and as often as the network likes, takes
what continues its text and acknowledges that.

A call that times out has sent a chunk that it does not report. The next call sends
it again behind itself, so that the peer gets it twice. And a retransmission that
could not be sent ends the wait with the error of the connection, which is none: the
chunk is reported although nobody has acknowledged it. As long as every chunk that
goes out is acknowledged before the deadline of its call, the peer's text is the
front of the callers' stream.
-/

namespace OpenRFS.Tcp

structure Peer where
  next : UInt32
  text : Bytes
  deriving DecidableEq, Repr

def Peer.receive (p : Peer) (m : Emission) : Peer :=
  let known := (p.next - m.sequence).toNat
  if known < m.payload.length then
    ⟨p.next + UInt32.ofNat (m.payload.length - known), p.text ++ m.payload.drop known⟩
  else p

def Peer.receiveAll (p : Peer) (deliveries : List Emission) : Peer := deliveries.foldl Peer.receive p

/-- A segment that arrives acknowledges what the peer has, after some of the segments
that were sent. -/
def Genuine (start : UInt32) (e : Endpoint) : Arrival → Prop
  | .segment s _ => hasFlag s.flags flagAck = true →
      ∃ deliveries : List Emission, (∀ m ∈ deliveries, m ∈ e.emitted) ∧
        s.acknowledgment = (Peer.receiveAll ⟨start, []⟩ deliveries).next
  | _ => True

/-- Every arrival meets a condition on the moment it arrives. -/
def serviceMeets (P : Endpoint → Arrival → Prop) (e : Endpoint) : List Arrival → Prop
  | [] => True
  | a :: arrivals => P e a ∧ serviceMeets P (arriveOne e a) arrivals

/-- The arrivals during a retransmission that takes place. -/
def retransmitMeets (P : Endpoint → Arrival → Prop) (e : Endpoint) (sending : Sending) : Prop :=
  ¬ (e.connection.retransmitFlags = 0 ∨ retransmissionLimit ≤ e.connection.retransmitCount) →
    serviceMeets P { e with connection :=
      { e.connection with retransmitCount := e.connection.retransmitCount + 1 } } sending.during

def waitMeets (P : Endpoint → Arrival → Prop) (e : Endpoint) : List Poll → Prop
  | [] => True
  | poll :: polls =>
    let served := service e poll.arrivals
    let turned :=
      if poll.retransmissionDue then tcpRetransmit poll.sending served else (.ok, served)
    serviceMeets P e poll.arrivals ∧
      (served.connection.cancelled = false → served.connection.error = .ok →
        served.connection.sendUnacknowledged ≠ served.connection.sendNext →
        (poll.retransmissionDue = true → retransmitMeets P served poll.sending) ∧
          (turned.1 = .ok → waitMeets P turned.2 polls))

def sendChunk (e : Endpoint) (bytes : Bytes) (sending : Sending) : NetworkStatus × Endpoint :=
  tcpEmit (service · sending.during) sending.sent false
    { e with connection := { e.connection with sendUnacknowledged := e.connection.sendNext } }
    (flagAck ||| flagPsh) (bytes.take e.connection.peerMss) e.connection.sendNext true true

/-- The arrivals during the loop of `network_tcp_write`. -/
def roundsMeet (P : Endpoint → Arrival → Prop) (e : Endpoint) (bytes : Bytes) :
    List (Sending × List Poll) → Prop
  | [] => True
  | (sending, polls) :: rounds =>
    let sent := sendChunk e bytes sending
    let waited := tcpWaitAck sent.2 polls
    bytes ≠ [] → serviceMeets P { e with connection :=
        { e.connection with sendUnacknowledged := e.connection.sendNext } } sending.during ∧
      (sent.1 = .ok → waitMeets P sent.2 polls ∧ (waited.1 = .ok → roundsMeet P waited.2
          (bytes.drop (bytes.take e.connection.peerMss).length) rounds))

/-- Every chunk that goes out is acknowledged before the deadline: the wait for it
ends well, and not because a retransmission failed without an error of the
connection. -/
def inTime (e : Endpoint) (bytes : Bytes) : List (Sending × List Poll) → Bool
  | [] => true
  | (sending, polls) :: rounds =>
    let sent := sendChunk e bytes sending
    let waited := tcpWaitAck sent.2 polls
    bytes.isEmpty || sent.1 != .ok ||
      (waited.1 == .ok &&
        waited.2.connection.sendUnacknowledged == waited.2.connection.sendNext &&
        inTime waited.2 (bytes.drop (bytes.take e.connection.peerMss).length) rounds)

/-- A connection, and how many bytes its calls have reported as written. -/
structure Session where
  endpoint : Endpoint
  reported : ℕ
  deriving DecidableEq, Repr

/-- A call that hands over the next bytes of the stream, or the stack being serviced. -/
inductive Act
  | write (length : ℕ) (timer : Bool) (rounds : List (Sending × List Poll))
  | service (arrivals : List Arrival)
  deriving DecidableEq, Repr

/-- The bytes a call hands over: those behind the ones reported as written. -/
def Session.rest (stream : Bytes) (s : Session) (length : ℕ) : Bytes :=
  (stream.drop s.reported).take length

def Session.act (stream : Bytes) (s : Session) : Act → Session
  | .write length timer rounds =>
    let ((_, written), e) := networkTcpWrite s.endpoint (s.rest stream length) timer rounds
    ⟨e, s.reported + written⟩
  | .service arrivals => ⟨Tcp.service s.endpoint arrivals, s.reported⟩

def Session.run (stream : Bytes) (s : Session) (acts : List Act) : Session :=
  acts.foldl (Session.act stream) s

def Session.writes (s : Session) (timer : Bool) : Bool :=
  s.endpoint.connection.error == .ok &&
    (s.endpoint.connection.state == .established || s.endpoint.connection.state == .closeWait) &&
    timer

/-- The acknowledgements that arrive are those of the peer. -/
def Act.genuine (start : UInt32) (stream : Bytes) (s : Session) : Act → Prop
  | .write length timer rounds => s.writes timer = true →
      roundsMeet (Genuine start) s.endpoint (s.rest stream length) rounds
  | .service arrivals => serviceMeets (Genuine start) s.endpoint arrivals

def Act.inTime (stream : Bytes) (s : Session) : Act → Bool
  | .write length timer rounds =>
    !s.writes timer || Tcp.inTime s.endpoint (s.rest stream length) rounds
  | .service _ => true

def actsGenuine (start : UInt32) (stream : Bytes) (s : Session) : List Act → Prop
  | [] => True
  | act :: acts => act.genuine start stream s ∧ actsGenuine start stream (s.act stream act) acts

def actsInTime (stream : Bytes) (s : Session) : List Act → Bool
  | [] => true
  | act :: acts => act.inTime stream s && actsInTime stream (s.act stream act) acts

/-- Whatever the network delivers, the peer has a front of the stream. -/
def Delivered (start : UInt32) (stream : Bytes) (e : Endpoint) : Prop :=
  ∀ deliveries : List Emission, (∀ m ∈ deliveries, m ∈ e.emitted) →
    (Peer.receiveAll ⟨start, []⟩ deliveries).text <+: stream

end OpenRFS.Tcp
