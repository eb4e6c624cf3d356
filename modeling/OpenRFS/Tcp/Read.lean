import OpenRFS.Tcp.Passive

/-!
# Reading from a TCP connection

`network_tcp_read`, and what all calls on a connection do to its receiving side.
Apart from the arrivals, a call only edits the sending side and sends segments, each
built from the connection as it was before the address of the peer was resolved.
This is said once, as a chain of `Move`s, for the writing and the reading calls
together.
-/

namespace OpenRFS.Tcp

open List

def Connection.starved (c : Connection) : Bool :=
  c.receive.isEmpty && !c.peerClosed && c.error == .ok

/-- One turn of the loop of `network_tcp_read`: what arrives, and whether the wait
for an interrupt works. -/
structure ReadPoll where
  arrivals : List Arrival
  wakes : Bool
  deriving DecidableEq, Repr

def awaitData (e : Endpoint) : List ReadPoll → Option NetworkStatus × Endpoint
  | [] => (none, e)
  | poll :: polls =>
    if e.connection.starved then
      let e := service e poll.arrivals
      if e.connection.cancelled then (some .cancelled, e)
      else if e.connection.starved && !poll.wakes then (some .noResources, e)
      else awaitData e polls
    else (none, e)

/-- The window is announced again when a read takes the buffer below its half. -/
def Connection.announces (c : Connection) (buffered : ℕ) : Bool :=
  !c.peerClosed && decide (receiveCapacity / 2 ≤ buffered) &&
    decide (c.receive.length < receiveCapacity / 2)

def takeReceived (capacity : ℕ) (sending : Sending) (e : Endpoint) : Bytes × Endpoint :=
  let c := { e.connection with receive := e.connection.receive.drop capacity }
  let taken := e.connection.receive.take capacity
  if c.announces e.connection.receive.length then
    let (status, e) := tcpEmit (service · sending.during) sending.sent false
      { e with connection := c } flagAck [] c.sendNext false false
    if status ≠ .ok ∧ e.connection.error = .ok then
      (taken, { e with connection := { e.connection with error := status } })
    else (taken, e)
  else (taken, { e with connection := c })

/-- `network_tcp_read`, for a valid handle. -/
def networkTcpRead (e : Endpoint) (capacity : ℕ) (timer : Bool) (polls : List ReadPoll)
    (sending : Sending) : (NetworkStatus × Bytes) × Endpoint :=
  let c := e.connection
  if capacity = 0 then ((.nullArgument, []), e)
  else if c.state = .listen ∨ c.state = .opened ∨ c.state = .synReceived then
    ((.wrongMode, []), e)
  else if !timer then ((.noResources, []), e)
  else
    match awaitData e polls with
    | (some status, e) => ((status, []), e)
    | (none, e) =>
      if e.connection.error ≠ .ok then ((e.connection.error, []), e)
      else if e.connection.receive.isEmpty then
        ((if e.connection.peerClosed then .connectionClosed else .timeout, []), e)
      else
        let (taken, e) := takeReceived capacity sending e
        ((.ok, taken), e)

inductive Use
  | call (call : Call)
  | read (capacity : ℕ) (timer : Bool) (polls : List ReadPoll) (sending : Sending)
  deriving DecidableEq, Repr

/-- An endpoint, and all bytes that its reads have returned. -/
structure Reader where
  endpoint : Endpoint
  returned : Bytes
  deriving DecidableEq, Repr

def Reader.use (r : Reader) : Use → Reader
  | .call call => ⟨step r.endpoint call, r.returned⟩
  | .read capacity timer polls sending =>
    let ((_, taken), e) := networkTcpRead r.endpoint capacity timer polls sending
    ⟨e, r.returned ++ taken⟩

def Reader.run (r : Reader) (uses : List Use) : Reader := uses.foldl Reader.use r

def Poll.allArrivals (p : Poll) : List Arrival := p.arrivals ++ p.sending.during

/-- Everything that arrives in the course of a call. -/
def Call.arrivals : Call → List Arrival
  | .write _ _ rounds =>
    rounds.flatMap fun round => round.1.during ++ round.2.flatMap Poll.allArrivals
  | .shutdown _ sending polls => sending.during ++ polls.flatMap Poll.allArrivals
  | .service arrivals => arrivals

def Use.arrivals : Use → List Arrival
  | .call c => c.arrivals
  | .read _ _ polls sending => polls.flatMap ReadPoll.arrivals ++ sending.during

/-- What the calls do to an endpoint, as far as it receives: they edit the sending
side, something arrives, or a segment goes out that announces the window from
before the arrivals during its sending. -/
inductive Move (P : Arrival → Prop) : Endpoint → Endpoint → Prop
  | edit {e : Endpoint} {c : Connection} (receive : c.receive = e.connection.receive)
      (next : c.receiveNext = e.connection.receiveNext)
      (closed : c.peerClosed = e.connection.peerClosed)
      (state : c.state = e.connection.state ∨ c.state = .finWait ∨ c.state = .closed) :
      Move P e { e with connection := c }
  | arrive {e : Endpoint} {a : Arrival} (arrives : P a) : Move P e (arriveOne e a)
  | emit {e : Endpoint} {m : Emission} {arrivals : List Arrival} (arrive : ∀ a ∈ arrivals, P a)
      (acknowledgment : m.acknowledgment = e.connection.receiveNext)
      (window : m.window = if receiveCapacity ≤ e.connection.receive.length then 0
        else UInt16.ofNat (receiveCapacity - e.connection.receive.length)) :
      Move P e ⟨(service e arrivals).connection, m :: (service e arrivals).emitted⟩

abbrev Moves (P : Arrival → Prop) : Endpoint → Endpoint → Prop := Relation.ReflTransGen (Move P)

section Moves

variable {P : Arrival → Prop} {e : Endpoint}

theorem moves_service {arrivals : List Arrival} (h : ∀ a ∈ arrivals, P a) :
    Moves P e (service e arrivals) := by
  induction arrivals generalizing e with
  | nil => exact .refl
  | cons a arrivals ih =>
    simp only [forall_mem_cons] at h
    exact .head (.arrive h.1) (ih h.2)

theorem moves_tcpEmit {sending : Sending} (h : ∀ a ∈ sending.during, P a) (retransmission : Bool)
    (flags : UInt8) (payload : Bytes) (sequence : UInt32) (advance track : Bool) :
    Moves P e (tcpEmit (service · sending.during) sending.sent retransmission e flags payload
      sequence advance track).2 := by
  rw [tcpEmit]
  by_cases hlong : transmitCapacity < payload.length
  · rw [if_pos hlong]
  rw [if_neg hlong]
  by_cases hsent : sending.sent ≠ .ok
  · rw [if_pos hsent]
    exact moves_service h
  · rw [if_neg hsent]
    refine .trans (.single (.emit h rfl rfl)) (.single (.edit ?_ ?_ ?_ (.inl ?_)))
    all_goals cases track <;> cases advance <;> rfl

theorem moves_tcpRetransmit {sending : Sending} (h : ∀ a ∈ sending.during, P a) :
    Moves P e (tcpRetransmit sending e).2 := by
  simp only [tcpRetransmit]
  split_ifs
  · exact .single (.edit rfl rfl rfl (.inl rfl))
  · refine .head ?_ (moves_tcpEmit h true _ _ _ _ _)
    exact .edit rfl rfl rfl (.inl rfl)

theorem moves_turns {polls : List Poll} (h : ∀ a ∈ polls.flatMap Poll.allArrivals, P a) :
    Turns (Moves P e) polls := by
  have hpoll : ∀ poll ∈ polls, ∀ a ∈ poll.allArrivals, P a := fun poll hpoll a ha =>
    h a (mem_flatMap.mpr ⟨poll, hpoll, ha⟩)
  refine ⟨fun poll hp e' he => he.trans (moves_service fun a ha => ?_),
    fun poll hp e' he => he.trans (moves_tcpRetransmit fun a ha => ?_)⟩
  · exact hpoll poll hp a (mem_append_left _ ha)
  · exact hpoll poll hp a (mem_append_right _ ha)

theorem moves_writeChunks {written : ℕ} {bytes : Bytes} {rounds : List (Sending × List Poll)}
    (h : ∀ a ∈ rounds.flatMap fun round => round.1.during ++ round.2.flatMap Poll.allArrivals,
      P a) : Moves P e (writeChunks e written bytes rounds).2 := by
  induction rounds generalizing e written bytes with
  | nil => exact .refl
  | cons round rounds ih =>
    obtain ⟨sending, polls⟩ := round
    simp only [flatMap_cons, forall_mem_append] at h
    have hsent : Moves P e (tcpEmit (service · sending.during) sending.sent false
        { e with connection := { e.connection with sendUnacknowledged := e.connection.sendNext } }
        (flagAck ||| flagPsh) (bytes.take e.connection.peerMss) e.connection.sendNext
        true true).2 := by
      refine .head ?_ (moves_tcpEmit h.1.1 false _ _ _ _ _)
      exact .edit rfl rfl rfl (.inl rfl)
    simp only [writeChunks]
    generalize tcpEmit _ _ _ _ _ _ _ _ _ = sent at hsent ⊢
    have hwaited := (moves_turns h.1.2).tcpWaitAck hsent
    generalize tcpWaitAck _ _ = waited at hwaited ⊢
    split_ifs
    · exact .refl
    · exact hsent
    · exact hwaited
    · exact hwaited.trans (ih h.2)

theorem moves_step {call : Call} (h : ∀ a ∈ call.arrivals, P a) : Moves P e (step e call) := by
  cases call with
  | service arrivals => exact moves_service h
  | write bytes timer rounds =>
    simp only [step, networkTcpWrite]
    split_ifs
    · exact .refl
    · exact .refl
    · exact .refl
    · exact moves_writeChunks h
  | shutdown timer sending polls =>
    simp only [Call.arrivals, forall_mem_append] at h
    have hsent : Moves P e (tcpEmit (service · sending.during) sending.sent false
        { e with connection := { e.connection with
            sendUnacknowledged := e.connection.sendNext
            finSent := true
            state := .finWait } }
        (flagFin ||| flagAck) [] e.connection.sendNext true true).2 := by
      refine .head ?_ (moves_tcpEmit h.1 false _ _ _ _ _)
      exact .edit rfl rfl rfl (.inr (.inl rfl))
    simp only [step, networkTcpShutdown]
    generalize tcpEmit _ _ _ _ _ _ _ _ _ = sent at hsent ⊢
    have hclosed := (moves_turns h.2).awaitClose
      (fun _ he => he.tail (.edit rfl rfl rfl (.inr (.inr rfl)))) hsent
    split_ifs
    all_goals first | exact .refl | exact hclosed | exact hsent

theorem moves_awaitData {polls : List ReadPoll} (h : ∀ a ∈ polls.flatMap ReadPoll.arrivals, P a) :
    Moves P e (awaitData e polls).2 := by
  induction polls generalizing e with
  | nil => exact .refl
  | cons poll polls ih =>
    simp only [flatMap_cons, forall_mem_append] at h
    have hserved : Moves P e (service e poll.arrivals) := moves_service h.1
    simp only [awaitData]
    split_ifs
    · exact hserved
    · exact hserved
    · exact hserved.trans (ih h.2)
    · exact .refl

theorem moves_takeReceived {sending : Sending} (h : ∀ a ∈ sending.during, P a) (capacity : ℕ) :
    (takeReceived capacity sending e).1 = e.connection.receive.take capacity ∧
      Moves P { e with connection :=
          { e.connection with receive := e.connection.receive.drop capacity } }
        (takeReceived capacity sending e).2 := by
  have hsent := moves_tcpEmit (e := { e with connection :=
    { e.connection with receive := e.connection.receive.drop capacity } }) h false flagAck []
    e.connection.sendNext false false
  simp only [takeReceived]
  generalize tcpEmit _ _ _ _ _ _ _ _ _ = sent at hsent ⊢
  split_ifs
  · exact ⟨rfl, hsent.tail (.edit rfl rfl rfl (.inl rfl))⟩
  · exact ⟨rfl, hsent⟩
  · exact ⟨rfl, .refl⟩

theorem moves_networkTcpRead (capacity : ℕ) (timer : Bool) {polls : List ReadPoll}
    {sending : Sending} (h : ∀ a ∈ polls.flatMap ReadPoll.arrivals ++ sending.during, P a) :
    ∃ (e₁ : Endpoint) (n : ℕ), Moves P e e₁ ∧
      (networkTcpRead e capacity timer polls sending).1.2 = e₁.connection.receive.take n ∧
      Moves P { e₁ with connection :=
          { e₁.connection with receive := e₁.connection.receive.drop n } }
        (networkTcpRead e capacity timer polls sending).2 := by
  simp only [forall_mem_append] at h
  have hawaited : Moves P e (awaitData e polls).2 := moves_awaitData h.1
  simp only [networkTcpRead]
  split_ifs
  · exact ⟨e, 0, .refl, rfl, .refl⟩
  · exact ⟨e, 0, .refl, rfl, .refl⟩
  · exact ⟨e, 0, .refl, rfl, .refl⟩
  · split
    · rename_i status e₁ heq
      rw [heq] at hawaited
      exact ⟨e₁, 0, hawaited, rfl, .refl⟩
    · rename_i e₁ heq
      rw [heq] at hawaited
      split_ifs
      · exact ⟨e₁, 0, hawaited, rfl, .refl⟩
      · exact ⟨e₁, 0, hawaited, rfl, .refl⟩
      · exact ⟨e₁, 0, hawaited, rfl, .refl⟩
      · obtain ⟨htaken, hmoves⟩ := moves_takeReceived h.2 capacity (e := e₁)
        exact ⟨e₁, capacity, hawaited, htaken, hmoves⟩

end Moves

end OpenRFS.Tcp
