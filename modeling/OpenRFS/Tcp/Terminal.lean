import OpenRFS.Tcp.ReceiveStream

/-!
# Segments after the end of a TCP connection

The receive path tells three of the nine states apart. In all others it takes what a
segment brings at `receive_next`, also when the peer has closed its stream and when
the connection is reset or closed. A connection that has ended stays as it is exactly
as long as no such segment comes.
-/

namespace OpenRFS.Tcp

/-- The connection after segments, each with the status of the acknowledgement it may
cause. -/
def receiveAll (e : Endpoint) (segments : List (Segment × NetworkStatus)) : Endpoint :=
  service e (segments.map fun s => .segment s.1 s.2)

/-- What the end of a connection keeps: after the peer's `FIN` the place in its stream
and the buffer, after a reset or close the state and the buffer. -/
structure Absorbs (c c' : Connection) : Prop where
  stream : c.peerClosed = true → c'.receiveNext = c.receiveNext ∧ c'.receive = c.receive
  state : c.state = .reset ∨ c.state = .closed → c'.state = c.state ∧ c'.receive = c.receive

def Connection.Ended (c : Connection) : Prop :=
  c.peerClosed = true ∨ c.state = .reset ∨ c.state = .closed

/-- The segment brings something at the place where the stream goes on, and it fits. -/
def Segment.Continues (segment : Segment) (c : Connection) : Prop :=
  (segment.payload.length ≠ 0 ∨ hasFlag segment.flags flagFin = true) ∧
    segment.sequence = c.receiveNext ∧
    segment.payload.length ≤ receiveCapacity - c.receive.length

/-- The path that most states share takes what the segment brings. -/
def Segment.Taken (segment : Segment) (c : Connection) : Prop :=
  (hasFlag segment.flags flagSyn || !hasFlag segment.flags flagAck ||
      sequenceBefore segment.acknowledgment c.sendUnacknowledged ||
      sequenceBefore c.sendNext segment.acknowledgment) = false ∧ segment.Continues c

/-- The segment moves a connection whose input has ended. -/
def Segment.Revives (segment : Segment) (c : Connection) : Prop :=
  c.Ended ∧
  if hasFlag segment.flags flagRst then c.state = .closed ∧ segment.sequence = c.receiveNext
  else
    match c.state with
    | .listen => False
    | .synSent => segment.flags &&& (flagSyn ||| flagAck) = flagSyn ||| flagAck ∧
        segment.acknowledgment = c.sendNext ∧ segment.sequence + 1 ≠ c.receiveNext
    | .synReceived => segment.acknowledgment = c.sendNext ∧
        segment.Taken { c with sendUnacknowledged := segment.acknowledgment }
    | _ => segment.Taken c

theorem Absorbs.refl (c : Connection) : Absorbs c c :=
  ⟨fun _ => ⟨rfl, rfl⟩, fun _ => ⟨rfl, rfl⟩⟩

theorem Absorbs.of_not_ended {c c' : Connection} (h : ¬ c.Ended) : Absorbs c c' :=
  ⟨fun hclosed => absurd (.inl hclosed) h, fun hstate => absurd (.inr hstate) h⟩

/-- The part of the end that an acceptable step keeps for the next one. -/
theorem Absorbs.trans {c c' c'' : Connection} (h : Absorbs c c')
    (hclosed : c.peerClosed → c'.peerClosed) (h' : Absorbs c' c'') :
    Absorbs c c'' where
  stream hc := by
    obtain ⟨hnext, hreceive⟩ := h'.stream (hclosed hc)
    exact ⟨hnext.trans (h.stream hc).1, hreceive.trans (h.stream hc).2⟩
  state hs := by
    obtain ⟨hkept, hbuffer⟩ := h.state hs
    obtain ⟨hstate, hreceive⟩ := h'.state (by rwa [hkept])
    exact ⟨hstate.trans hkept, hreceive.trans hbuffer⟩

theorem receiveAll_append (e : Endpoint) (front later : List (Segment × NetworkStatus)) :
    receiveAll e (front ++ later) = receiveAll (receiveAll e front) later := by
  simp only [receiveAll, service, List.map_append, List.foldl_append]

section Segment

variable (sent : NetworkStatus) (segment : Segment) {e : Endpoint} {c : Connection}
  (hreceive : e.connection.receive = c.receive)
  (hnext : e.connection.receiveNext = c.receiveNext)
  (hstate : e.connection.state = c.state ∨ c.state = .synReceived)
include hreceive hnext hstate

theorem Absorbs.of_agree : Absorbs c e.connection where
  stream _ := ⟨hnext, hreceive⟩
  state hterminal := by
    rcases hstate with hstate | hstate
    · exact ⟨hstate, hreceive⟩
    · simp [hstate] at hterminal

variable (hended : c.Ended)
include hended

theorem absorbs_receiveData_iff :
    Absorbs c (receiveData sent segment e).connection ↔ ¬ segment.Continues e.connection := by
  simp only [receiveData]
  by_cases hbrings : segment.payload.length ≠ 0 ∨ hasFlag segment.flags flagFin
  swap
  · rw [if_neg hbrings]
    exact iff_of_true (.of_agree hreceive hnext hstate) fun h => hbrings h.1
  rw [if_pos hbrings]
  by_cases hat : segment.sequence ≠ e.connection.receiveNext
  · rw [if_pos hat, tcpAck_connection]
    exact iff_of_true (.of_agree hreceive hnext hstate) fun h => hat h.2.1
  rw [if_neg hat]
  by_cases hroom : receiveCapacity - e.connection.receive.length < segment.payload.length
  · rw [if_pos hroom, tcpAck_connection]
    refine iff_of_true ?_ fun h => absurd h.2.2 hroom.not_ge
    exact .of_agree (e := ⟨{ e.connection with error := .noResources }, e.emitted⟩) hreceive hnext
      hstate
  rw [if_neg hroom, tcpAck_connection]
  refine iff_of_false (fun habsorbs => ?_) (not_not.mpr ⟨hbrings, not_not.mp hat, not_lt.mp hroom⟩)
  by_cases hfin : hasFlag segment.flags flagFin
  · rw [if_pos hfin] at habsorbs
    rcases hended with hclosed | hterminal
    · obtain ⟨hplace, hbytes⟩ := habsorbs.stream hclosed
      have hnil : segment.payload = [] := by simpa [hreceive] using hbytes
      simp [hnil, hnext] at hplace
    · have hmoved := (habsorbs.state hterminal).1
      split_ifs at hmoved <;> simp [← hmoved] at hterminal
  · rw [if_neg hfin] at habsorbs
    have hbytes : e.connection.receive ++ segment.payload = c.receive := by
      rcases hended with hclosed | hterminal
      · exact (habsorbs.stream hclosed).2
      · exact (habsorbs.state hterminal).2
    have hnil : segment.payload = [] := by simpa [hreceive] using hbytes
    simp [hnil, hfin] at hbrings

theorem absorbs_receiveAcknowledgment_iff :
    Absorbs c (receiveAcknowledgment sent segment e).connection ↔ ¬ segment.Taken e.connection := by
  simp only [Segment.Taken, receiveAcknowledgment]
  split_ifs with hrefused hall
  · exact iff_of_true (.of_agree hreceive hnext hstate) (by simp [hrefused])
  all_goals
    refine (absorbs_receiveData_iff sent segment ?_ ?_ ?_ hended).trans ?_
    · exact hreceive
    · exact hnext
    · exact hstate
    · exact not_congr (and_iff_right (Bool.eq_false_iff.mpr hrefused)).symm

end Segment

/-- One segment. -/
theorem absorbs_tcpReceiveSegment_iff (sent : NetworkStatus) (segment : Segment) (e : Endpoint) :
    Absorbs e.connection (tcpReceiveSegment sent segment e).connection ↔
      ¬ segment.Revives e.connection := by
  by_cases hended : e.connection.Ended
  swap
  · exact iff_of_true (.of_not_ended hended) fun h => hended h.1
  rw [Segment.Revives, tcpReceiveSegment, and_iff_right hended]
  split_ifs with hrst hignored
  · refine iff_of_true (.refl _) fun h => ?_
    simp [resetIgnored, h.1, h.2] at hignored
  · refine ⟨fun habsorbs hclosed => ?_, fun h => ⟨fun _ => ⟨rfl, rfl⟩, ?_⟩⟩
    · have hreset := (habsorbs.state (.inr hclosed.1)).1
      simp [hclosed.1] at hreset
    · rintro (hreset | hclosed)
      · exact ⟨hreset.symm, rfl⟩
      · exact absurd ⟨hclosed, by simpa [resetIgnored, hclosed] using hignored⟩ h
  · cases hs : e.connection.state
    all_goals dsimp only
    case listen => exact iff_of_true (.refl _) not_false
    case synSent =>
      have hclosed : e.connection.peerClosed := by simpa [Connection.Ended, hs] using hended
      simp only [receiveSynSent]
      split_ifs with hrefused
      · exact iff_of_true (.refl _) fun h => hrefused.elim (· h.1) (· h.2.1)
      · rw [not_or, not_not, not_not] at hrefused
        rw [tcpAck_connection, ← and_assoc, and_iff_right hrefused, not_not]
        refine ⟨fun h => (h.stream hclosed).1, fun h => ⟨fun _ => ⟨h, rfl⟩, fun hstate => ?_⟩⟩
        simp [hs] at hstate
    case synReceived =>
      simp only [receiveSynReceived]
      split_ifs with hrefused
      · refine iff_of_true (.refl _) fun h => ?_
        obtain ⟨hack, htaken, hbrings, hat, hroom⟩ := h
        simp_all
      · have hack : segment.acknowledgment = e.connection.sendNext := by simp_all
        rw [and_iff_right hack]
        exact absorbs_receiveAcknowledgment_iff sent segment rfl rfl (.inr hs) hended
    all_goals exact absorbs_receiveAcknowledgment_iff sent segment rfl rfl (.inl rfl) hended

/-- Any number of segments: what has ended stays as it is for every later part of the
sequence exactly when no segment comes that moves it. -/
theorem absorbs_receiveAll_iff (e : Endpoint) (segments : List (Segment × NetworkStatus)) :
    (∀ front later rest, segments = front ++ later ++ rest →
        Absorbs (receiveAll e front).connection (receiveAll e (front ++ later)).connection) ↔
      ∀ front s rest, segments = front ++ s :: rest →
        ¬ s.1.Revives (receiveAll e front).connection := by
  constructor
  · intro h front s rest hsegments
    have habsorbs := h front [s] rest (by simp [hsegments])
    rw [receiveAll_append] at habsorbs
    exact (absorbs_tcpReceiveSegment_iff s.2 s.1 _).mp habsorbs
  · intro h front later rest hsegments
    rw [receiveAll_append]
    induction later generalizing front with
    | nil => exact .refl _
    | cons s later ih =>
      have hstep := (absorbs_tcpReceiveSegment_iff s.2 s.1 _).mpr
        (h front s (later ++ rest) (by simp [hsegments]))
      have hlater := ih (front ++ [s]) (by simp [hsegments])
      rw [receiveAll_append] at hlater
      exact hstep.trans (peerClosed_arriveOne _ (.segment s.1 s.2)) hlater

/-- A segment of the peer of `freshConnection` that acknowledges everything. -/
def peerSegment (sequence : UInt32) (flags : UInt8) (payload : Bytes) : Segment × NetworkStatus :=
  ({ sequence, acknowledgment := 100, flags := flags ||| flagAck, window := 8192, payload }, .ok)

/-- Behind the `FIN` of the peer a byte is added to the buffer, and a connection that was
reset is closed by the peer again. -/
theorem ended_connections_revived :
    ((receiveAll ⟨freshConnection, []⟩ [peerSegment 500 flagFin []]).connection.peerClosed = true ∧
      (receiveAll ⟨freshConnection, []⟩ [peerSegment 500 flagFin [], peerSegment 501 0 [7]]
        ).connection.receive = [7]) ∧
    (receiveAll ⟨freshConnection, []⟩ [peerSegment 500 flagRst []]).connection.state = .reset ∧
      (receiveAll ⟨freshConnection, []⟩ [peerSegment 500 flagRst [], peerSegment 500 flagFin []]
        ).connection.state = .closeWait := by
  decide

end OpenRFS.Tcp
