import OpenRFS.NativeHandle.Table
import OpenRFS.Tcp.Connection

/-!
# Waiting for several handles

`networkPoll` asks the network stack for the readiness of several sockets. It leaves
one result for each request, in the order of the requests, and the number of results
that show anything. `pollWaitItems` works out the readiness of the items of a wait
call: it answers for files, timers, windows and audio itself, and collects the
streams and datagrams for one `networkPoll`.

What other parts of the kernel answer is handed in: the clock, the window, the audio
stream, and what the sockets look like in each round of the poll.
-/

namespace OpenRFS.NativeWait

open NativeHandle Tcp

section Flags

def has (flags bit : UInt32) : Bool := decide (flags &&& bit ≠ 0)

def flag (condition : Bool) (bit : UInt32) : UInt32 := if condition then bit else 0

def waitReadable : UInt32 := 1
def waitWritable : UInt32 := 2
def waitSignaled : UInt32 := 8
def waitClosed : UInt32 := 16

def waitInterests : UInt32 := 31

def readyConnected : UInt32 := 1
def readyReadable : UInt32 := 2
def readyWritable : UInt32 := 4
def readyPeerClosed : UInt32 := 8
def readyError : UInt32 := 16
def readyCancelled : UInt32 := 32
def readyTimeout : UInt32 := 64
def readyAcceptable : UInt32 := 128

end Flags

section NetworkPoll

structure PollRequest where
  handle : UInt64
  interests : UInt32
  deriving DecidableEq, Repr

structure PollResult where
  handle : UInt64
  ready : UInt32
  error : NetworkStatus
  deriving DecidableEq, Repr

/-- What a handle of the network stands for. `udp_for` and `tcp_for` refuse a handle
that is stale or of another owner. -/
inductive Socket where
  | udp (queueCount : ℕ) (cancelled : Bool) (error : NetworkStatus)
  | tcp (connection : Connection) (acceptable : Bool)
  | refused (status : NetworkStatus)

def Socket.readiness : Socket → UInt32 × NetworkStatus
  | .refused status => (readyError, status)
  | .udp queueCount cancelled error =>
    (flag (queueCount ≠ 0) readyReadable ||| readyWritable ||| flag cancelled readyCancelled |||
      flag (error ≠ .ok) readyError, error)
  | .tcp c acceptable =>
    if c.state = .listen then
      (flag acceptable (readyAcceptable ||| readyReadable) ||| flag c.cancelled readyCancelled, .ok)
    else
      (flag (c.state = .established) (readyConnected ||| readyWritable) |||
        flag (!c.receive.isEmpty) readyReadable ||| flag c.peerClosed readyPeerClosed |||
        flag c.cancelled readyCancelled ||| flag (c.error ≠ .ok) readyError, c.error)

/-- What is reported although nobody asked for it. -/
def alwaysReported : UInt32 :=
  readyError ||| readyCancelled ||| readyPeerClosed ||| readyAcceptable

def pollOne (sockets : UInt64 → Socket) (request : PollRequest) : PollResult :=
  let readiness := (sockets request.handle).readiness
  { handle := request.handle
    ready := readiness.1 &&& (request.interests ||| alwaysReported)
    error := readiness.2 }

/-- One round of the loop of `network_poll`: the sockets after the stack was
serviced, whether the wait for an interrupt failed, and whether the deadline has
passed after it. -/
structure Round where
  sockets : UInt64 → Socket
  waitFailed : Bool
  expired : Bool

def readyCount (results : List PollResult) : ℕ := results.countP fun r => decide (r.ready ≠ 0)

structure Polled where
  status : NetworkStatus
  results : List PollResult
  count : ℕ

/-- The deadline passed without a ready socket. -/
def timedOut (results : List PollResult) : Polled where
  status := .timeout
  results := results.map fun r => { r with ready := r.ready ||| readyTimeout }
  count := results.length

def pollRound (requests : List PollRequest) (round : Round) (rest : List PollResult → Polled) :
    Polled :=
  let results := requests.map (pollOne round.sockets)
  if readyCount results ≠ 0 then ⟨.ok, results, readyCount results⟩
  else if round.waitFailed then ⟨.noResources, results, 0⟩
  else if round.expired then timedOut results
  else rest results

def pollRounds (requests : List PollRequest) (round : Round) (more : List Round) : Polled :=
  match more with
  | [] => pollRound requests round timedOut
  | next :: more => pollRound requests round fun _ => pollRounds requests next more

def networkPoll (timerAcquired : Bool) (requests : List PollRequest) (round : Round)
    (more : List Round) : Polled :=
  -- `NETWORK_MAX_POLL_HANDLES`
  if requests.length = 0 ∨ 8 < requests.length then ⟨.invalidArgument, [], 0⟩
  else if !timerAcquired then ⟨.noResources, [], 0⟩
  else pollRounds requests round more

end NetworkPoll

section Items

structure WaitItem where
  handle : UInt64
  interests : UInt32
  ready : UInt32
  deriving DecidableEq, Repr

/-- `enum audio_native_status` without the value of success. -/
inductive AudioError where
  | nullArgument | absent | busy | stale | invalid | canceled | io
  deriving DecidableEq, Repr

/-- Why `poll_wait_items` fails. The system call turns it into an error number. -/
inductive WaitError where
  | handle (status : HandleStatus)
  | invalidArgument
  | audio (error : AudioError)
  | network (status : NetworkStatus)
  deriving DecidableEq, Repr

structure Window where
  allocated : Bool
  generation : UInt64
  eventCount : ℕ
  overflowPending : Bool

structure Environment where
  handles : Table
  clock : UInt64
  window : Window
  /-- `audio_native_poll`: whether the stream is writable and whether it is closed. -/
  audio : UInt64 → Except AudioError (Bool × Bool)
  timerAcquired : Bool
  round : Round
  more : List Round

def isNetwork (type : UInt8) : Bool := type = 5 ∨ type = 6

/-- The readiness of an item that does not belong to the network. -/
def localReady (env : Environment) (type : UInt8) (resource : Resource) (interests : UInt32) :
    Except WaitError UInt32 :=
  match type with
  -- files and directories are always ready
  | 1 | 2 => .ok (interests &&& (waitReadable ||| waitWritable))
  -- timers
  | 7 =>
    .ok (flag (resource.words 0 ≠ 0 ∧ resource.words 0 ≤ env.clock) (interests &&& waitSignaled))
  -- event queues
  | 4 =>
    .ok (flag (env.window.allocated ∧ env.window.generation = resource.words 1 ∧
      (env.window.eventCount ≠ 0 ∨ env.window.overflowPending)) (interests &&& waitReadable))
  -- audio outputs
  | 9 =>
    if interests &&& ~~~(waitWritable ||| waitClosed) ≠ 0 then .error .invalidArgument
    else
      match env.audio (resource.words 0) with
      | .error e => .error (.audio e)
      | .ok (writable, closed) =>
        .ok (flag writable (interests &&& waitWritable) ||| flag closed (interests &&& waitClosed))
  | _ => .ok 0

def networkRequest (resource : Resource) (interests : UInt32) : PollRequest where
  handle := resource.words 0
  interests := flag (has interests waitReadable) readyReadable |||
    flag (has interests waitWritable) readyWritable

/-- One turn of the first loop: the item, and the request if it is for the network. -/
def scanItem (env : Environment) (item : WaitItem) :
    Except WaitError (WaitItem × Option PollRequest) :=
  match env.handles.resolve item.handle 0 with
  | .error status => .error (.handle status)
  | .ok resource =>
    if item.interests &&& ~~~waitInterests ≠ 0 ∨ item.interests = 0 then .error .invalidArgument
    else if isNetwork (encodedType item.handle) then
      .ok ({ item with ready := 0 }, some (networkRequest resource item.interests))
    else
      match localReady env (encodedType item.handle) resource item.interests with
      | .error e => .error e
      | .ok ready => .ok ({ item with ready := ready }, none)

/-- `network_indices` with `network_requests`: the requests of the items, each with
the index of its item. -/
def networkIndices (scanned : List (WaitItem × Option PollRequest)) : List (ℕ × PollRequest) :=
  scanned.zipIdx.filterMap fun entry => entry.1.2.map fun request => (entry.2, request)

def resultReady (result : PollResult) : UInt32 :=
  flag (has result.ready readyReadable) waitReadable |||
    flag (has result.ready readyWritable) waitWritable |||
    flag (has result.ready (readyPeerClosed ||| readyError ||| readyCancelled)) waitClosed

def addResult (item : WaitItem) (result : PollResult) : WaitItem :=
  { item with ready := item.ready ||| resultReady result }

/-- The second loop: the results that are taken up, each with the index of its item,
and the number of items found ready so far. -/
def takeResults : List (ℕ × PollResult) → List WaitItem × ℕ → List WaitItem × ℕ
  | [], state => state
  | (index, result) :: rest, (items, count) =>
    match items[index]? with
    -- an index of the first loop is within the list
    | none => takeResults rest (items, count)
    | some item =>
      let item := addResult item result
      takeResults rest (items.set index item, if item.ready ≠ 0 then count + 1 else count)

def readyItems (items : List WaitItem) : ℕ := items.countP fun item => decide (item.ready ≠ 0)

/-- `poll_wait_items`: the items with their readiness, and the number of ready ones. -/
def pollWaitItems (env : Environment) (items : List WaitItem) :
    Except WaitError (List WaitItem × ℕ) := do
  let scanned ← items.mapM (scanItem env)
  let found := scanned.map Prod.fst
  let indices := networkIndices scanned
  if indices = [] then .ok (found, readyItems found)
  else
    let polled := networkPoll env.timerAcquired (indices.map Prod.snd) env.round env.more
    if polled.status ≠ .ok ∧ polled.status ≠ .timeout then .error (.network polled.status)
    else
      -- as many results as there are ready ones, from the first one on
      .ok (takeResults (((indices.map Prod.fst).zip polled.results).take polled.count)
        (found, readyItems found))

end Items

end OpenRFS.NativeWait
