import OpenRFS.Codec.LittleEndian

/-!
# A TCP connection

One connection of the network stack, from the point on where a segment was matched
to it. Sequence numbers are 32-bit words. A connection keeps the last segment it
sent for retransmission, whole, together with the flags it was sent with.

What the outside decides is handed in: the segments that arrive while the stack is
serviced, whether a packet could be sent, and whether a timeout has passed. Sending
may have to resolve an address first, during which the stack is serviced as well;
so a call that sends takes the arrivals of that time.

Everything that goes out is kept in a log, with the edges of the send window at the
time it was sent.
-/

namespace OpenRFS.Tcp

inductive NetworkStatus
  | ok | unavailable | linkDown | unconfigured | alreadyInitialized | notInitialized
  | nullArgument | invalidArgument | range | timeout | cancelled | wouldBlock | noResources
  | staleHandle | wrongOwner | wrongMode | alreadyBound | portInUse | reset | malformed
  | checksum | fragmented | unsupported | unreachable | dhcpNak | dnsFailure
  | connectionReset | connectionClosed | httpFailure | filesystem | tooLarge
  deriving DecidableEq, Repr

inductive ConnectionState
  | closed | opened | listen | synSent | synReceived | established | finWait | closeWait | reset
  deriving DecidableEq, Repr

def flagFin : UInt8 := 0x01
def flagSyn : UInt8 := 0x02
def flagRst : UInt8 := 0x04
def flagPsh : UInt8 := 0x08
def flagAck : UInt8 := 0x10

def receiveCapacity : ℕ := 8192

def transmitCapacity : ℕ := 1460

def retransmissionLimit : ℕ := 4

/-- The part of `struct tcp_connection` that its segments depend on. The lengths
`receive_bytes` and `retransmit_bytes` are those of the two texts. -/
structure Connection where
  state : ConnectionState
  receive : Bytes
  retransmit : Bytes
  sendUnacknowledged : UInt32
  sendNext : UInt32
  receiveNext : UInt32
  peerWindow : UInt16
  peerMss : ℕ
  retransmitFlags : UInt8
  retransmitCount : ℕ
  error : NetworkStatus
  cancelled : Bool
  peerClosed : Bool
  finSent : Bool
  deriving DecidableEq, Repr

/-- A segment that went out. The last three fields are no part of the packet: the
left edge of the window when it was built, the right edge once it was sent, and
whether it is a retransmission. -/
structure Emission where
  sequence : UInt32
  acknowledgment : UInt32
  flags : UInt8
  window : UInt16
  payload : Bytes
  unacknowledged : UInt32
  sendNext : UInt32
  retransmission : Bool
  deriving DecidableEq, Repr

/-- A connection with everything it has sent, the latest first. -/
structure Endpoint where
  connection : Connection
  emitted : List Emission
  deriving DecidableEq, Repr

structure Segment where
  sequence : UInt32
  acknowledgment : UInt32
  flags : UInt8
  window : UInt16
  payload : Bytes
  deriving DecidableEq, Repr

def hasFlag (flags flag : UInt8) : Bool := flags &&& flag != 0

/-- `sequence_before`: the difference is negative as a signed number. -/
def sequenceBefore (left right : UInt32) : Bool := decide (2 ^ 31 ≤ (left - right).toNat)

def sequenceLength (flags : UInt8) (payload : Bytes) : UInt32 :=
  UInt32.ofNat payload.length + if hasFlag flags (flagSyn ||| flagFin) then 1 else 0

def Connection.keep (c : Connection) (track : Bool) (flags : UInt8) (payload : Bytes) :
    Connection :=
  if track then { c with retransmit := payload, retransmitFlags := flags, retransmitCount := 0 }
  else c

def Connection.advance (c : Connection) (advance : Bool) (flags : UInt8) (payload : Bytes) :
    Connection :=
  if advance then { c with sendNext := c.sendNext + sequenceLength flags payload } else c

/-- `tcp_emit`. The packet is built first; then the address is resolved, which
serves `arrive`; then it is sent with the status `sent`. -/
def tcpEmit (arrive : Endpoint → Endpoint) (sent : NetworkStatus) (retransmission : Bool)
    (e : Endpoint) (flags : UInt8) (payload : Bytes) (sequence : UInt32) (advance track : Bool) :
    NetworkStatus × Endpoint :=
  if transmitCapacity < payload.length then (.invalidArgument, e)
  else
    let built := e.connection
    let e := arrive e
    if sent ≠ .ok then (sent, e)
    else
      let c := (e.connection.keep track flags payload).advance advance flags payload
      (.ok, {
        connection := c
        emitted :=
          { sequence := sequence
            acknowledgment := built.receiveNext
            flags := flags
            window := if receiveCapacity ≤ built.receive.length then 0
              else UInt16.ofNat (receiveCapacity - built.receive.length)
            payload := payload
            unacknowledged := built.sendUnacknowledged
            sendNext := c.sendNext
            retransmission := retransmission } :: e.emitted })

/-- `tcp_ack`, as the receive path calls it: nothing is serviced while it is sent,
and its status is ignored. -/
def tcpAck (sent : NetworkStatus) (e : Endpoint) : Endpoint :=
  (tcpEmit id sent false e flagAck [] e.connection.sendNext false false).2

/-- The last part of `tcp_receive_segment`: the data and the end of the stream that
a segment brings. -/
def receiveData (sent : NetworkStatus) (segment : Segment) (e : Endpoint) : Endpoint :=
  let c := e.connection
  if segment.payload.length ≠ 0 ∨ hasFlag segment.flags flagFin then
    if segment.sequence ≠ c.receiveNext then tcpAck sent e
    else if receiveCapacity - c.receive.length < segment.payload.length then
      tcpAck sent { e with connection := { c with error := .noResources } }
    else
      let c := { c with
        receive := c.receive ++ segment.payload
        receiveNext := c.receiveNext + UInt32.ofNat segment.payload.length }
      let c := if hasFlag segment.flags flagFin then
          { c with
            receiveNext := c.receiveNext + 1
            peerClosed := true
            state := if c.finSent then .finWait else .closeWait }
        else c
      tcpAck sent { e with connection := c }
  else e

/-- The middle part of `tcp_receive_segment`: an acknowledgement inside the window
moves its left edge. -/
def receiveAcknowledgment (sent : NetworkStatus) (segment : Segment) (e : Endpoint) : Endpoint :=
  let c := e.connection
  if hasFlag segment.flags flagSyn || !hasFlag segment.flags flagAck ||
      sequenceBefore segment.acknowledgment c.sendUnacknowledged ||
      sequenceBefore c.sendNext segment.acknowledgment then e
  else
    let c := { c with
      peerWindow := segment.window
      sendUnacknowledged := segment.acknowledgment }
    let c := if segment.acknowledgment = c.sendNext then
        { c with retransmitFlags := 0, retransmit := [] }
      else c
    receiveData sent segment { e with connection := c }

def resetIgnored (segment : Segment) (c : Connection) : Bool :=
  if c.state = .synSent then
    !hasFlag segment.flags flagAck || segment.acknowledgment != c.sendNext
  else segment.sequence != c.receiveNext

/-- A segment that finishes a passive open falls through to the acknowledgement it
carries; any other one in that state is ignored. -/
def receiveSynReceived (sent : NetworkStatus) (segment : Segment) (e : Endpoint) : Endpoint :=
  let c := e.connection
  if !hasFlag segment.flags flagAck || segment.acknowledgment != c.sendNext ||
      segment.sequence != c.receiveNext then e
  else
    receiveAcknowledgment sent segment { e with
      connection := { c with
        sendUnacknowledged := segment.acknowledgment
        retransmitFlags := 0
        retransmit := []
        state := .established
        peerWindow := segment.window } }

def receiveSynSent (sent : NetworkStatus) (segment : Segment) (e : Endpoint) : Endpoint :=
  let c := e.connection
  if segment.flags &&& (flagSyn ||| flagAck) ≠ flagSyn ||| flagAck ∨
      segment.acknowledgment ≠ c.sendNext then e
  else
    tcpAck sent { e with
      connection := { c with
        sendUnacknowledged := segment.acknowledgment
        receiveNext := segment.sequence + 1
        retransmitFlags := 0
        state := .established
        peerWindow := segment.window } }

/-- `tcp_receive_segment` from the point on where the connection is found. -/
def tcpReceiveSegment (sent : NetworkStatus) (segment : Segment) (e : Endpoint) : Endpoint :=
  if hasFlag segment.flags flagRst then
    if resetIgnored segment e.connection then e
    else
      { e with connection := { e.connection with state := .reset, error := .connectionReset } }
  else
    match e.connection.state with
    | .listen => e
    | .synReceived => receiveSynReceived sent segment e
    | .synSent => receiveSynSent sent segment e
    | _ => receiveAcknowledgment sent segment e

/-- What reaches a connection from outside while the stack is serviced: a segment,
with the status of the acknowledgement it may cause; the failure of the device
(`network_fail_endpoints`); or a cancellation by its owner. -/
inductive Arrival
  | segment (segment : Segment) (sent : NetworkStatus)
  | fail (status : NetworkStatus)
  | cancel
  deriving DecidableEq, Repr

def arriveOne (e : Endpoint) : Arrival → Endpoint
  | .segment segment sent => tcpReceiveSegment sent segment e
  | .fail status => { e with connection := { e.connection with error := status, state := .reset } }
  | .cancel => { e with connection := { e.connection with cancelled := true } }

def service (e : Endpoint) (arrivals : List Arrival) : Endpoint := arrivals.foldl arriveOne e

/-- How sending a packet goes: what arrives while the address is resolved, and the
status of `ipv4_send`. -/
structure Sending where
  during : List Arrival
  sent : NetworkStatus
  deriving DecidableEq, Repr

/-- `tcp_retransmit`: the whole segment that is kept, at the left edge of the window. -/
def tcpRetransmit (sending : Sending) (e : Endpoint) : NetworkStatus × Endpoint :=
  let c := e.connection
  if c.retransmitFlags = 0 ∨ retransmissionLimit ≤ c.retransmitCount then
    (.timeout, { e with connection := { c with error := .timeout } })
  else
    let c := { c with retransmitCount := c.retransmitCount + 1 }
    tcpEmit (service · sending.during) sending.sent true { e with connection := c }
      c.retransmitFlags c.retransmit c.sendUnacknowledged false false

/-- One turn of a waiting loop: what arrives, whether the retransmission timeout has
passed, how a retransmission goes, and whether the wait for an interrupt works. -/
structure Poll where
  arrivals : List Arrival
  retransmissionDue : Bool
  sending : Sending
  wakes : Bool
  deriving DecidableEq, Repr

/-- `tcp_wait_ack`. The polls are the turns of its loop before the deadline. -/
def tcpWaitAck (e : Endpoint) : List Poll → NetworkStatus × Endpoint
  | [] => (.timeout, e)
  | poll :: polls =>
    let e := service e poll.arrivals
    if e.connection.cancelled then (.cancelled, e)
    else if e.connection.error ≠ .ok then (e.connection.error, e)
    else if e.connection.sendUnacknowledged = e.connection.sendNext then (.ok, e)
    else
      let (status, e) := if poll.retransmissionDue then tcpRetransmit poll.sending e else (.ok, e)
      if status ≠ .ok then (e.connection.error, e)
      else if e.connection.sendUnacknowledged ≠ e.connection.sendNext && !poll.wakes then
        (.noResources, e)
      else tcpWaitAck e polls

/-- The loop of `network_tcp_write` over the chunks of a text. Each turn before the
deadline sends one chunk and waits for its acknowledgement. The result is the
status and how many bytes were written. -/
def writeChunks (e : Endpoint) (written : ℕ) (bytes : Bytes) :
    List (Sending × List Poll) → (NetworkStatus × ℕ) × Endpoint
  | [] => ((if bytes.length = 0 then .ok else .timeout, written), e)
  | (sending, polls) :: rounds =>
    if bytes.length = 0 then ((.ok, written), e)
    else
      let chunk := bytes.take e.connection.peerMss
      let c := { e.connection with sendUnacknowledged := e.connection.sendNext }
      let (status, e) := tcpEmit (service · sending.during) sending.sent false
        { e with connection := c } (flagAck ||| flagPsh) chunk c.sendNext true true
      if status ≠ .ok then ((status, written), e)
      else
        let (status, e) := tcpWaitAck e polls
        if status ≠ .ok then ((status, written), e)
        else writeChunks e (written + chunk.length) (bytes.drop chunk.length) rounds

/-- `network_tcp_write`, for a valid handle and a nonempty text. -/
def networkTcpWrite (e : Endpoint) (bytes : Bytes) (timer : Bool)
    (rounds : List (Sending × List Poll)) : (NetworkStatus × ℕ) × Endpoint :=
  if e.connection.error ≠ .ok then ((e.connection.error, 0), e)
  else if e.connection.state ≠ .established ∧ e.connection.state ≠ .closeWait then
    ((.wrongMode, 0), e)
  else if !timer then ((.noResources, 0), e)
  else writeChunks e 0 bytes rounds

def awaitClose (e : Endpoint) : List Poll → NetworkStatus × Endpoint
  | [] => (.ok, e)
  | poll :: polls =>
    if e.connection.state = .closed then (.ok, e)
    else
      let e := service e poll.arrivals
      if e.connection.cancelled then (.cancelled, e)
      else if e.connection.error ≠ .ok then (e.connection.error, e)
      else if e.connection.sendUnacknowledged = e.connection.sendNext ∧
          e.connection.peerClosed then
        (.ok, { e with connection := { e.connection with state := .closed } })
      else
        let (status, e) :=
          if poll.retransmissionDue then tcpRetransmit poll.sending e else (.ok, e)
        if status ≠ .ok then (e.connection.error, e)
        else if e.connection.state ≠ .closed && !poll.wakes then (.noResources, e)
        else awaitClose e polls

/-- `network_tcp_shutdown`, for a valid handle. -/
def networkTcpShutdown (e : Endpoint) (timer : Bool) (sending : Sending) (polls : List Poll) :
    NetworkStatus × Endpoint :=
  let c := e.connection
  if c.error ≠ .ok then (c.error, e)
  else if c.state = .closed ∨ c.state = .reset then
    (if c.state = .reset then .connectionReset else .ok, e)
  else if c.state ≠ .established ∧ c.state ≠ .closeWait then (.wrongMode, e)
  else if !timer then (.noResources, e)
  else
    let c := { c with sendUnacknowledged := c.sendNext, finSent := true, state := .finWait }
    let (status, e) := tcpEmit (service · sending.during) sending.sent false
      { e with connection := c } (flagFin ||| flagAck) [] c.sendNext true true
    let (status, e) := if status = .ok then awaitClose e polls else (status, e)
    (if e.connection.state = .closed then .ok else if status = .ok then .timeout else status, e)

/-- A call by the owner of a connection, or the stack being serviced for another
reason. -/
inductive Call
  | write (bytes : Bytes) (timer : Bool) (rounds : List (Sending × List Poll))
  | shutdown (timer : Bool) (sending : Sending) (polls : List Poll)
  | service (arrivals : List Arrival)
  deriving DecidableEq, Repr

def step (e : Endpoint) : Call → Endpoint
  | .write bytes timer rounds => (networkTcpWrite e bytes timer rounds).2
  | .shutdown timer sending polls => (networkTcpShutdown e timer sending polls).2
  | .service arrivals => service e arrivals

def run (e : Endpoint) (calls : List Call) : Endpoint := calls.foldl step e

end OpenRFS.Tcp
