import OpenRFS.Tcp.Connection

/-!
# What servicing a connection may change

Segments that arrive move the left edge of the send window, never the right one.
They leave the segment that is kept for retransmission alone or drop it when all of
it is acknowledged, and what they make the connection send carries no data. This is
`Passive`; it holds of every arrival and so of any number of them.
-/

namespace OpenRFS.Tcp

open List

/-- The states a connection is in once it has sent its end of the stream. -/
def ConnectionState.Closing (s : ConnectionState) : Prop :=
  s = .finWait ∨ s = .closed ∨ s = .reset

def Connection.outstanding (c : Connection) : ℕ := (c.sendNext - c.sendUnacknowledged).toNat

structure Passive (e e' : Endpoint) : Prop where
  next : e'.connection.sendNext = e.connection.sendNext
  window : e'.connection.retransmit = e.connection.retransmit ∧
      e'.connection.outstanding ≤ e.connection.outstanding ∨
    e'.connection.retransmit = [] ∧ e'.connection.outstanding = 0
  finSent : e'.connection.finSent = e.connection.finSent
  closing : e.connection.finSent = true → e.connection.state.Closing → e'.connection.state.Closing
  log : ∃ added, e'.emitted = added ++ e.emitted ∧
    ∀ m ∈ added, m.payload = [] ∧ m.retransmission = false

theorem Passive.refl (e : Endpoint) : Passive e e :=
  ⟨rfl, .inl ⟨rfl, le_rfl⟩, rfl, fun _ h => h, [], rfl, by simp⟩

theorem Passive.trans {e₁ e₂ e₃ : Endpoint} (h : Passive e₁ e₂) (h' : Passive e₂ e₃) :
    Passive e₁ e₃ := by
  obtain ⟨added, hlog, hadded⟩ := h.log
  obtain ⟨added', hlog', hadded'⟩ := h'.log
  refine ⟨h'.next.trans h.next, ?_, h'.finSent.trans h.finSent,
    fun hfin hstate => h'.closing (h.finSent ▸ hfin) (h.closing hfin hstate),
    added' ++ added, by rw [hlog', hlog, append_assoc], forall_mem_append.mpr ⟨hadded', hadded⟩⟩
  rcases h'.window with ⟨hkept', hle'⟩ | hdropped
  · rcases h.window with ⟨hkept, hle⟩ | ⟨hnil, hzero⟩
    · exact .inl ⟨hkept'.trans hkept, hle'.trans hle⟩
    · exact .inr ⟨hkept'.trans hnil, Nat.le_zero.mp (hzero ▸ hle')⟩
  · exact .inr hdropped

theorem Passive.edit {e : Endpoint} {c : Connection} (hnext : c.sendNext = e.connection.sendNext)
    (hedge : c.sendUnacknowledged = e.connection.sendUnacknowledged)
    (hkept : c.retransmit = e.connection.retransmit) (hfin : c.finSent = e.connection.finSent)
    (hclosing : e.connection.finSent → e.connection.state.Closing → c.state.Closing) :
    Passive e { e with connection := c } :=
  ⟨hnext, .inl ⟨hkept, by simp [Connection.outstanding, hnext, hedge]⟩, hfin, hclosing, [], rfl,
    by simp⟩

/-- What `tcp_emit` does: it fails, with the arrivals served or not, or the segment
goes out and is logged. -/
theorem tcpEmit_cases (arrive : Endpoint → Endpoint) (sent : NetworkStatus)
    (retransmission : Bool) (e : Endpoint) (flags : UInt8) (payload : Bytes) (sequence : UInt32)
    (advance track : Bool) :
    (∃ status, status ≠ .ok ∧
      (tcpEmit arrive sent retransmission e flags payload sequence advance track = (status, e) ∨
        tcpEmit arrive sent retransmission e flags payload sequence advance track =
          (status, arrive e))) ∨
    payload.length ≤ transmitCapacity ∧ ∃ m : Emission,
      m.sequence = sequence ∧ m.payload = payload ∧ m.retransmission = retransmission ∧
      m.unacknowledged = e.connection.sendUnacknowledged ∧
      m.sendNext = (((arrive e).connection.keep track flags payload).advance advance flags
        payload).sendNext ∧
      tcpEmit arrive sent retransmission e flags payload sequence advance track =
        (.ok, { connection := ((arrive e).connection.keep track flags payload).advance advance
                  flags payload
                emitted := m :: (arrive e).emitted }) := by
  rw [tcpEmit]
  by_cases hlong : transmitCapacity < payload.length
  · exact .inl ⟨.invalidArgument, by decide, .inl (if_pos hlong)⟩
  · rw [if_neg hlong]
    by_cases hsent : sent ≠ .ok
    · exact .inl ⟨sent, hsent, .inr (if_pos hsent)⟩
    · exact .inr ⟨not_lt.mp hlong, _, rfl, rfl, rfl, rfl, rfl, if_neg hsent⟩

section Steps

variable (sent : NetworkStatus) (segment : Segment) (e : Endpoint)

@[simp] theorem tcpAck_connection : (tcpAck sent e).connection = e.connection := by
  rw [tcpAck]
  rcases tcpEmit_cases id sent false e flagAck [] e.connection.sendNext false false with
    ⟨status, -, heq | heq⟩ | ⟨-, m, -, -, -, -, -, heq⟩ <;> rw [heq] <;> rfl

theorem outstanding_acknowledged {next edge acknowledgment : UInt32}
    (hedge : sequenceBefore acknowledgment edge = false)
    (hnext : sequenceBefore next acknowledgment = false) (hwindow : (next - edge).toNat < 2 ^ 31) :
    (next - acknowledgment).toNat ≤ (next - edge).toNat := by
  simp only [sequenceBefore, decide_eq_false_iff_not, not_le, UInt32.toNat_sub] at *
  have := next.toNat_lt
  have := edge.toNat_lt
  have := acknowledgment.toNat_lt
  omega

theorem Passive.acknowledgeAll {e : Endpoint} {c : Connection}
    (hnext : c.sendNext = e.connection.sendNext) (hedge : c.sendUnacknowledged = c.sendNext)
    (hkept : c.retransmit = e.connection.retransmit ∨ c.retransmit = [])
    (hfin : c.finSent = e.connection.finSent)
    (hclosing : e.connection.finSent → e.connection.state.Closing → c.state.Closing) :
    Passive e { e with connection := c } := by
  have hzero : c.outstanding = 0 := by simp [Connection.outstanding, hedge]
  refine ⟨hnext, ?_, hfin, hclosing, [], rfl, by simp⟩
  rcases hkept with hkept | hnil
  · exact .inl ⟨hkept, hzero.trans_le (Nat.zero_le _)⟩
  · exact .inr ⟨hnil, hzero⟩

theorem passive_tcpAck : Passive e (tcpAck sent e) := by
  rw [tcpAck]
  rcases tcpEmit_cases id sent false e flagAck [] e.connection.sendNext false false with
    ⟨status, -, heq | heq⟩ | ⟨-, m, -, hpayload, hfresh, -, -, heq⟩
  · rw [heq]
    exact Passive.refl e
  · rw [heq]
    exact Passive.refl e
  · rw [heq]
    exact ⟨rfl, .inl ⟨rfl, le_rfl⟩, rfl, fun _ h => h, [m], rfl, by simp [hpayload, hfresh]⟩

open Passive

theorem passive_receiveData : Passive e (receiveData sent segment e) := by
  simp only [receiveData]
  split_ifs with hdata hsequence hroom hfin hsent
  · exact passive_tcpAck sent e
  · refine trans ?_ (passive_tcpAck sent _)
    exact Passive.edit rfl rfl rfl rfl fun _ h => h
  · refine trans ?_ (passive_tcpAck sent _)
    exact Passive.edit rfl rfl rfl rfl fun _ _ => .inl rfl
  · refine trans ?_ (passive_tcpAck sent _)
    exact Passive.edit rfl rfl rfl rfl fun h _ => absurd h hsent
  · refine trans ?_ (passive_tcpAck sent _)
    exact Passive.edit rfl rfl rfl rfl fun _ h => h
  · exact Passive.refl e

theorem passive_receiveAcknowledgment (hwindow : e.connection.outstanding < 2 ^ 31) :
    Passive e (receiveAcknowledgment sent segment e) := by
  simp only [receiveAcknowledgment]
  split_ifs with hrefused hall
  · exact Passive.refl e
  · refine trans ?_ (passive_receiveData sent segment _)
    exact acknowledgeAll rfl hall (.inr rfl) rfl fun _ h => h
  · refine trans ?_ (passive_receiveData sent segment _)
    simp only [Bool.or_eq_true, not_or, Bool.not_eq_true] at hrefused
    exact ⟨rfl, .inl ⟨rfl, outstanding_acknowledged hrefused.1.2 hrefused.2 hwindow⟩, rfl,
      fun _ h => h, [], rfl, by simp⟩

theorem passive_receiveSynReceived (hstate : ¬ e.connection.state.Closing) :
    Passive e (receiveSynReceived sent segment e) := by
  simp only [receiveSynReceived]
  split_ifs with hstray
  · exact Passive.refl e
  · simp only [Bool.or_eq_true, not_or, bne_iff_ne, ne_eq, not_not] at hstray
    refine trans ?_ (passive_receiveAcknowledgment sent segment _ ?_)
    · exact acknowledgeAll rfl hstray.1.2 (.inr rfl) rfl fun _ h => absurd h hstate
    · simp [Connection.outstanding, hstray.1.2]

theorem passive_receiveSynSent
    (hstate : ¬ e.connection.state.Closing) : Passive e (receiveSynSent sent segment e) := by
  simp only [receiveSynSent]
  split_ifs with hstray
  · exact Passive.refl e
  · simp only [not_or, ne_eq, not_not] at hstray
    refine trans ?_ (passive_tcpAck sent _)
    exact acknowledgeAll rfl hstray.2 (.inl rfl) rfl fun _ h => absurd h hstate

theorem passive_tcpReceiveSegment (hwindow : e.connection.outstanding < 2 ^ 31) :
    Passive e (tcpReceiveSegment sent segment e) := by
  rw [tcpReceiveSegment]
  split_ifs with hreset hignored
  · exact Passive.refl e
  · exact Passive.edit rfl rfl rfl rfl fun _ _ => .inr (.inr rfl)
  · split
    · exact Passive.refl e
    · rename_i hstate
      exact passive_receiveSynReceived sent segment e (by simp [hstate, ConnectionState.Closing])
    · rename_i hstate
      exact passive_receiveSynSent sent segment e (by simp [hstate, ConnectionState.Closing])
    · exact passive_receiveAcknowledgment sent segment e hwindow

end Steps

theorem passive_arriveOne (e : Endpoint) (a : Arrival) (hwindow : e.connection.outstanding < 2 ^ 31) :
    Passive e (arriveOne e a) := by
  cases a with
  | segment segment sent => exact passive_tcpReceiveSegment sent segment e hwindow
  | fail status => exact Passive.edit rfl rfl rfl rfl fun _ _ => .inr (.inr rfl)
  | cancel => exact Passive.edit rfl rfl rfl rfl fun _ h => h

theorem Passive.outstanding_le {e e' : Endpoint} (h : Passive e e') :
    e'.connection.outstanding ≤ e.connection.outstanding := by
  rcases h.window with ⟨-, hle⟩ | ⟨-, hzero⟩
  · exact hle
  · exact hzero.trans_le (Nat.zero_le _)

theorem passive_service (e : Endpoint) (arrivals : List Arrival)
    (hwindow : e.connection.outstanding < 2 ^ 31) : Passive e (service e arrivals) := by
  induction arrivals generalizing e with
  | nil => exact Passive.refl e
  | cons a arrivals ih =>
    have hone := passive_arriveOne e a hwindow
    exact hone.trans (ih (arriveOne e a) (hone.outstanding_le.trans_lt hwindow))

/-! ### Waiting loops -/

section Waiting

variable {R : Endpoint → Prop} {e : Endpoint} {polls : List Poll}

/-- What the turns of a waiting loop do to an endpoint: the stack is serviced, and a segment
may be sent again. -/
structure Turns (R : Endpoint → Prop) (polls : List Poll) : Prop where
  service : ∀ poll ∈ polls, ∀ e, R e → R (service e poll.arrivals)
  retransmit : ∀ poll ∈ polls, ∀ e, R e → R (tcpRetransmit poll.sending e).2

theorem Turns.tail {poll : Poll} (h : Turns R (poll :: polls)) : Turns R polls :=
  ⟨fun p hp => h.service p (mem_cons_of_mem _ hp),
    fun p hp => h.retransmit p (mem_cons_of_mem _ hp)⟩

theorem Turns.turn {poll : Poll} (h : Turns R (poll :: polls)) (he : R e) :
    R (if poll.retransmissionDue then tcpRetransmit poll.sending e else (.ok, e)).2 := by
  split_ifs
  · exact h.retransmit poll mem_cons_self e he
  · exact he

/-- What the turns keep, `tcp_wait_ack` keeps. -/
theorem Turns.tcpWaitAck (h : Turns R polls) (he : R e) : R (tcpWaitAck e polls).2 := by
  induction polls generalizing e with
  | nil => exact he
  | cons poll polls ih =>
    have hserved := h.service poll mem_cons_self e he
    have hturn := h.turn hserved
    simp only [Tcp.tcpWaitAck]
    generalize (if poll.retransmissionDue then
      tcpRetransmit poll.sending (Tcp.service e poll.arrivals)
      else (NetworkStatus.ok, Tcp.service e poll.arrivals)) = turned at hturn ⊢
    split_ifs
    · exact hserved
    · exact hserved
    · exact hserved
    · exact hturn
    · exact hturn
    · exact ih h.tail hturn

/-- What the turns and the mark at the end keep, the loop of `network_tcp_shutdown` keeps. -/
theorem Turns.awaitClose (h : Turns R polls)
    (hclose : ∀ e, R e → R { e with connection := { e.connection with state := .closed } })
    (he : R e) : R (awaitClose e polls).2 := by
  induction polls generalizing e with
  | nil => exact he
  | cons poll polls ih =>
    have hserved := h.service poll mem_cons_self e he
    have hturn := h.turn hserved
    simp only [Tcp.awaitClose]
    generalize (if poll.retransmissionDue then
      tcpRetransmit poll.sending (Tcp.service e poll.arrivals)
      else (NetworkStatus.ok, Tcp.service e poll.arrivals)) = turned at hturn ⊢
    split_ifs
    · exact he
    · exact hserved
    · exact hserved
    · exact hclose _ hserved
    · exact hturn
    · exact hturn
    · exact ih h.tail hturn

end Waiting

end OpenRFS.Tcp
