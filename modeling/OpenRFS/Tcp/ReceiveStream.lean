import OpenRFS.Tcp.Read
import OpenRFS.Tcp.Stream

/-!
# The stream a TCP connection receives

The peer sends one stream; its segments may be lost, repeated, reordered and cut
differently every time. A connection takes a segment only at `receive_next`. So what
its reads return, followed by its buffer, is always the front of the stream, and
`receive_next` says how long that front is.

Taking a segment moves `receive_next` and fills the buffer by the same amount, and
a read empties the buffer: the right edge of the announced window never goes back.
-/

namespace OpenRFS.Tcp

open List

variable {segment : Segment}

/-- The segment belongs to the stream `S` that starts at the sequence number
`initial`: its bytes are those of `S`, the flag `FIN` stands at the end of `S`, and
nothing follows it. -/
def Segment.OfStream (S : Bytes) (initial : UInt32) (segment : Segment) : Prop :=
  ∀ k, segment.sequence = initial + UInt32.ofNat k → (k ≤ S.length → segment.payload <+: S.drop k ∧
      (hasFlag segment.flags flagFin = true → k + segment.payload.length = S.length)) ∧
    (k = S.length + 1 → segment.payload = [] ∧ hasFlag segment.flags flagFin = false)

theorem Segment.ofStream_of_offset {S : Bytes} {initial : UInt32} {j : ℕ}
    (hshort : S.length + 1 < 2 ^ 32) (hj : j ≤ S.length)
    (hsequence : segment.sequence = initial + UInt32.ofNat j)
    (hpiece : segment.payload <+: S.drop j)
    (hfin : hasFlag segment.flags flagFin → j + segment.payload.length = S.length) :
    segment.OfStream S initial := by
  intro k hk
  have heq : k ≤ S.length + 1 → k = j := fun hle => by
    rw [hsequence, UInt32.add_right_inj, ← UInt32.toNat_inj, UInt32.toNat_ofNat',
      UInt32.toNat_ofNat', Nat.mod_eq_of_lt (by omega), Nat.mod_eq_of_lt (by omega)] at hk
    exact hk.symm
  refine ⟨fun hle => ?_, fun hpast => ?_⟩
  · rw [heq (by omega)]
    exact ⟨hpiece, hfin⟩
  · exact absurd (heq hpast.le) (by omega)

/-- A segment that arrives belongs to the stream. -/
def Arrival.OfStream (S : Bytes) (initial : UInt32) : Arrival → Prop
  | .segment s _ => s.OfStream S initial
  | _ => True

def Connection.rightEdge (c : Connection) : UInt32 :=
  c.receiveNext + UInt32.ofNat (receiveCapacity - c.receive.length)

def Emission.rightEdge (m : Emission) : UInt32 :=
  m.acknowledgment + UInt32.ofNat m.window.toNat

/-- The states of a connection after its handshake. -/
def ConnectionState.Synchronized (s : ConnectionState) : Prop :=
  s ≠ .listen ∧ s ≠ .synSent ∧ s ≠ .synReceived

instance : DecidablePred ConnectionState.Synchronized := fun s =>
  inferInstanceAs (Decidable (s ≠ .listen ∧ s ≠ .synSent ∧ s ≠ .synReceived))

/-- What was received of the stream `S` when the reads have returned `returned`. -/
structure Received (S : Bytes) (initial : UInt32) (returned : Bytes) (e : Endpoint) : Prop where
  front : returned ++ e.connection.receive <+: S
  next : e.connection.receiveNext = initial + UInt32.ofNat
    (returned.length + e.connection.receive.length + e.connection.peerClosed.toNat)
  closed : e.connection.peerClosed = true → returned ++ e.connection.receive = S
  room : e.connection.receive.length ≤ receiveCapacity
  synchronized : e.connection.state.Synchronized
  announced : ∀ m ∈ e.emitted, ∃ n ≤ returned.length + e.connection.peerClosed.toNat,
    m.rightEdge = initial + UInt32.ofNat (n + receiveCapacity)

variable {c : Connection} {e' : Endpoint} {r : Reader}

section Received

variable {S : Bytes} {initial : UInt32} {returned : Bytes} {e : Endpoint}

theorem prefix_append_of_drop {S front piece : Bytes} (hfront : front <+: S)
    (hpiece : piece <+: S.drop front.length) : front ++ piece <+: S := by
  obtain ⟨rest, rfl⟩ := hfront
  rw [drop_left] at hpiece
  exact (prefix_append_right_inj front).mpr hpiece

variable (h : Received S initial returned e)
include h

theorem Received.rightEdge :
    e.connection.rightEdge = initial + UInt32.ofNat
      (returned.length + e.connection.peerClosed.toNat + receiveCapacity) := by
  have hroom := h.room
  rw [Connection.rightEdge, h.next, UInt32.add_assoc, ← UInt32.ofNat_add]
  congr 2
  omega

theorem Received.announces {m : Emission} (hack : m.acknowledgment = e.connection.receiveNext)
    (hwindow : m.window = if receiveCapacity ≤ e.connection.receive.length then 0
      else UInt16.ofNat (receiveCapacity - e.connection.receive.length)) :
    m.rightEdge = e.connection.rightEdge := by
  have hroom := h.room
  rw [Emission.rightEdge, Connection.rightEdge, hack, hwindow]
  congr 2
  split_ifs with hfull
  · rw [Nat.sub_eq_zero_of_le hfull]
    rfl
  · rw [UInt16.toNat_ofNat', Nat.mod_eq_of_lt]
    exact (Nat.sub_le _ _).trans_lt (by decide)

theorem Received.edit (hreceive : c.receive = e.connection.receive)
    (hnext : c.receiveNext = e.connection.receiveNext)
    (hclosed : c.peerClosed = e.connection.peerClosed) (hstate : c.state.Synchronized) :
    Received S initial returned { e with connection := c } := by
  refine ⟨?_, ?_, ?_, ?_, hstate, ?_⟩
  · simpa only [hreceive] using h.front
  · simpa only [hreceive, hnext, hclosed] using h.next
  · simpa only [hreceive, hclosed] using h.closed
  · simpa only [hreceive] using h.room
  · simpa only [hclosed] using h.announced

theorem Received.log {m : Emission} {n : ℕ}
    (hn : n ≤ returned.length + e.connection.peerClosed.toNat)
    (hm : m.rightEdge = initial + UInt32.ofNat (n + receiveCapacity)) :
    Received S initial returned ⟨e.connection, m :: e.emitted⟩ :=
  ⟨h.front, h.next, h.closed, h.room, h.synchronized,
    forall_mem_cons.mpr ⟨⟨n, hn, hm⟩, h.announced⟩⟩

theorem Received.tcpAck (sent : NetworkStatus) : Received S initial returned (tcpAck sent e) := by
  rw [Tcp.tcpAck, tcpEmit]
  by_cases hsent : sent ≠ .ok
  · rw [if_neg (by decide), if_pos hsent]
    exact h
  · rw [if_neg (by decide), if_neg hsent]
    exact h.log le_rfl ((h.announces rfl rfl).trans h.rightEdge)

/-- A segment of the stream that brings something at `receive_next`: the stream has
not ended yet, and the segment continues the front that was received. -/
theorem Received.continues
    (hstream : segment.OfStream S initial) (hat : segment.sequence = e.connection.receiveNext)
    (hbrings : segment.payload.length ≠ 0 ∨ hasFlag segment.flags flagFin) :
    e.connection.peerClosed = false ∧ returned ++ (e.connection.receive ++ segment.payload) <+: S ∧
      (hasFlag segment.flags flagFin →
        returned ++ (e.connection.receive ++ segment.payload) = S) := by
  have hplace := hstream _ (hat.trans h.next)
  have hopen : e.connection.peerClosed = false := by
    by_contra hclosed
    have hclosed : e.connection.peerClosed := by simpa using hclosed
    have hlength := congrArg List.length (h.closed hclosed)
    rw [length_append] at hlength
    obtain ⟨hnil, hfin⟩ := hplace.2 (by rw [hclosed, Bool.toNat_true, hlength])
    simp [hnil, hfin] at hbrings
  rw [hopen, Bool.toNat_false, add_zero, ← length_append] at hplace
  obtain ⟨hpiece, hend⟩ := hplace.1 h.front.length_le
  have hfront := prefix_append_of_drop h.front hpiece
  rw [append_assoc] at hfront
  refine ⟨hopen, hfront, fun hfin => hfront.eq_of_length ?_⟩
  rw [← hend hfin, length_append, length_append, length_append, add_assoc]

open Received

theorem Received.receiveData (sent : NetworkStatus) (hstream : segment.OfStream S initial) :
    Received S initial returned (receiveData sent segment e) := by
  simp only [Tcp.receiveData]
  by_cases hbrings : segment.payload.length ≠ 0 ∨ hasFlag segment.flags flagFin
  swap
  · rw [if_neg hbrings]
    exact h
  rw [if_pos hbrings]
  by_cases hat : segment.sequence ≠ e.connection.receiveNext
  · rw [if_pos hat]
    exact h.tcpAck sent
  rw [if_neg hat]
  by_cases hroom : receiveCapacity - e.connection.receive.length < segment.payload.length
  · rw [if_pos hroom]
    refine tcpAck ?_ sent
    exact h.edit rfl rfl rfl h.synchronized
  rw [if_neg hroom]
  obtain ⟨hopen, hfront, hend⟩ := h.continues hstream (not_not.mp hat) hbrings
  have hfits := h.room
  refine tcpAck ?_ sent
  by_cases hfin : hasFlag segment.flags flagFin
  · rw [if_pos hfin]
    refine ⟨hfront, ?_, fun _ => hend hfin, ?_, ?_, fun m hm => ?_⟩
    · simp only [h.next, hopen, Bool.toNat_false, Bool.toNat_true, length_append,
        UInt32.add_assoc, ← UInt32.ofNat_add]
      rw [show (1 : UInt32) = UInt32.ofNat 1 from rfl, ← UInt32.ofNat_add]
      congr 2
      omega
    · simp only [length_append]
      omega
    · simp only
      split_ifs <;> decide
    · obtain ⟨n, hn, hedge⟩ := h.announced m hm
      exact ⟨n, hn.trans (by simp [hopen]), hedge⟩
  · rw [if_neg hfin]
    refine ⟨hfront, ?_, ?_, ?_, h.synchronized, h.announced⟩
    · simp only [h.next, hopen, Bool.toNat_false, length_append, UInt32.add_assoc,
        ← UInt32.ofNat_add]
      congr 2
      omega
    · simp [hopen]
    · simp only [length_append]
      omega

theorem Received.receiveAcknowledgment (sent : NetworkStatus)
    (hstream : segment.OfStream S initial) :
    Received S initial returned (receiveAcknowledgment sent segment e) := by
  simp only [Tcp.receiveAcknowledgment]
  split_ifs
  · exact h
  all_goals
    refine receiveData ?_ sent hstream
    exact h.edit rfl rfl rfl h.synchronized

theorem Received.receiveSegment (sent : NetworkStatus) (hstream : segment.OfStream S initial) :
    Received S initial returned (tcpReceiveSegment sent segment e) := by
  obtain ⟨hlisten, hsent, hreceived⟩ := h.synchronized
  rw [tcpReceiveSegment]
  split_ifs
  · exact h
  · exact h.edit rfl rfl rfl (show ConnectionState.Synchronized .reset by decide)
  · split
    · exact h
    · contradiction
    · contradiction
    · exact h.receiveAcknowledgment sent hstream

theorem Received.arriveOne {a : Arrival}
    (ha : a.OfStream S initial) : Received S initial returned (arriveOne e a) := by
  cases a with
  | segment segment sent => exact h.receiveSegment sent ha
  | fail status => exact h.edit rfl rfl rfl (show ConnectionState.Synchronized .reset by decide)
  | cancel => exact h.edit rfl rfl rfl h.synchronized

theorem Received.service {arrivals : List Arrival} (ha : ∀ a ∈ arrivals, a.OfStream S initial) :
    Received S initial returned (service e arrivals) := by
  induction arrivals generalizing e with
  | nil => exact h
  | cons a arrivals ih =>
    simp only [forall_mem_cons] at ha
    exact ih (h.arriveOne ha.1) ha.2

omit h

theorem peerClosed_receiveData (sent : NetworkStatus) (segment : Segment) (e : Endpoint)
    (h : e.connection.peerClosed) :
    (Tcp.receiveData sent segment e).connection.peerClosed := by
  simp only [Tcp.receiveData]
  split_ifs <;> simp [h]

theorem peerClosed_receiveAcknowledgment (sent : NetworkStatus) (segment : Segment)
    (e : Endpoint) (h : e.connection.peerClosed) :
    (Tcp.receiveAcknowledgment sent segment e).connection.peerClosed := by
  simp only [Tcp.receiveAcknowledgment]
  split_ifs
  · exact h
  · exact peerClosed_receiveData sent segment _ h
  · exact peerClosed_receiveData sent segment _ h

theorem peerClosed_arriveOne (e : Endpoint) (a : Arrival) (h : e.connection.peerClosed) :
    (Tcp.arriveOne e a).connection.peerClosed := by
  cases a with
  | fail status => exact h
  | cancel => exact h
  | segment segment sent =>
    simp only [Tcp.arriveOne, tcpReceiveSegment]
    split_ifs
    · exact h
    · exact h
    · split
      · exact h
      · simp only [receiveSynReceived]
        split_ifs
        · exact h
        · exact peerClosed_receiveAcknowledgment sent segment _ h
      · simp only [receiveSynSent]
        split_ifs
        · exact h
        · rw [tcpAck_connection]
          exact h
      · exact peerClosed_receiveAcknowledgment sent segment _ h

theorem peerClosed_service (e : Endpoint) (arrivals : List Arrival) :
    e.connection.peerClosed.toNat ≤ (Tcp.service e arrivals).connection.peerClosed.toNat := by
  cases hclosed : e.connection.peerClosed with
  | false => exact Nat.zero_le _
  | true =>
    refine (congrArg Bool.toNat ?_).ge
    induction arrivals generalizing e with
    | nil => exact hclosed
    | cons a arrivals ih => exact ih (arriveOne e a) (peerClosed_arriveOne e a hclosed)

variable (h : Received S initial returned e)
include h

theorem Received.move
    (hmove : Move (Arrival.OfStream S initial) e e') : Received S initial returned e' := by
  cases hmove with
  | edit hreceive hnext hclosed hstate =>
    refine h.edit hreceive hnext hclosed ?_
    rcases hstate with hs | hs | hs
    · exact hs ▸ h.synchronized
    · rw [hs]
      decide
    · rw [hs]
      decide
  | arrive ha => exact h.arriveOne ha
  | emit ha hack hwindow =>
    refine log (h.service ha) (Nat.add_le_add_left (peerClosed_service e _) _) ?_
    exact (h.announces hack hwindow).trans h.rightEdge

theorem Received.moves
    (hmoves : Moves (Arrival.OfStream S initial) e e') : Received S initial returned e' := by
  induction hmoves with
  | refl => exact h
  | tail _ hmove ih => exact ih.move hmove

theorem Received.take (n : ℕ) :
    Received S initial (returned ++ e.connection.receive.take n)
      { e with connection := { e.connection with receive := e.connection.receive.drop n } } := by
  have hsplit : returned ++ e.connection.receive.take n ++ e.connection.receive.drop n =
      returned ++ e.connection.receive := by
    rw [append_assoc, take_append_drop]
  have hlength := congrArg List.length hsplit
  simp only [length_append] at hlength
  refine ⟨?_, ?_, fun hclosed => hsplit.trans (h.closed hclosed), ?_, h.synchronized,
    fun m hm => ?_⟩
  · simpa only [hsplit] using h.front
  · rw [length_append, hlength]
    exact h.next
  · simp only [length_drop]
    exact (Nat.sub_le _ _).trans h.room
  · obtain ⟨k, hk, hedge⟩ := h.announced m hm
    refine ⟨k, hk.trans (Nat.add_le_add_right ?_ _), hedge⟩
    rw [length_append]
    exact Nat.le_add_right _ _

omit h

theorem peerClosed_moves {P : Arrival → Prop} (h : Moves P e e') :
    e.connection.peerClosed.toNat ≤ e'.connection.peerClosed.toNat := by
  induction h with
  | refl => exact le_rfl
  | tail _ hmove ih =>
    refine ih.trans ?_
    cases hmove with
    | edit _ _ hclosed _ => exact (congrArg Bool.toNat hclosed).ge
    | arrive _ => exact peerClosed_service _ [_]
    | emit _ _ _ => exact peerClosed_service _ _

theorem Received.use (h : Received S initial r.returned r.endpoint) {u : Use}
    (hu : ∀ a ∈ u.arrivals, a.OfStream S initial) :
    Received S initial (r.use u).returned (r.use u).endpoint ∧
      r.endpoint.connection.peerClosed.toNat ≤ (r.use u).endpoint.connection.peerClosed.toNat ∧
      ∃ taken : Bytes, taken.length ≤ receiveCapacity ∧
        (r.use u).returned = r.returned ++ taken := by
  cases u with
  | call call =>
    have hmoves := moves_step (e := r.endpoint) hu
    exact ⟨h.moves hmoves, peerClosed_moves hmoves, [], Nat.zero_le _, (append_nil _).symm⟩
  | read capacity timer polls sending =>
    obtain ⟨e₁, n, hbefore, htaken, hafter⟩ :=
      moves_networkTcpRead (e := r.endpoint) capacity timer hu
    have h₁ := h.moves hbefore
    have h₂ := moves (h₁.take n) hafter
    have hclosed := peerClosed_moves hafter
    simp only [Reader.use]
    rw [htaken]
    refine ⟨h₂, (peerClosed_moves hbefore).trans hclosed, _, ?_, rfl⟩
    exact (length_take_le' _ _).trans h₁.room

theorem Received.run (h : Received S initial r.returned r.endpoint) {uses : List Use}
    (huses : ∀ u ∈ uses, ∀ a ∈ u.arrivals, a.OfStream S initial) :
    Received S initial (r.run uses).returned (r.run uses).endpoint := by
  induction uses generalizing r with
  | nil => exact h
  | cons u uses ih =>
    simp only [forall_mem_cons] at huses
    exact ih (h.use huses.1).1 huses.2

theorem not_sequenceBefore_add {initial : UInt32} {m n : ℕ} (hle : m ≤ n) (hnear : n - m < 2 ^ 31) :
    sequenceBefore (initial + UInt32.ofNat n) (initial + UInt32.ofNat m) = false := by
  simp only [sequenceBefore, decide_eq_false_iff_not, not_le, UInt32.toNat_sub, UInt32.toNat_add,
    UInt32.toNat_ofNat']
  have := initial.toNat_lt
  omega

theorem Received.rightEdge_use (h : Received S initial r.returned r.endpoint) {u : Use}
    (hu : ∀ a ∈ u.arrivals, a.OfStream S initial) :
    sequenceBefore (r.use u).endpoint.connection.rightEdge r.endpoint.connection.rightEdge =
      false := by
  obtain ⟨hafter, hclosed, taken, hcapacity, hreturned⟩ := h.use hu
  have hfin := Bool.toNat_le (r.use u).endpoint.connection.peerClosed
  rw [receiveCapacity] at hcapacity
  rw [hafter.rightEdge, h.rightEdge, hreturned, length_append]
  refine not_sequenceBefore_add ?_ ?_ <;> omega

/-- A segment that ends in front of the right edge has room if it is taken. -/
theorem fits_of_rightEdge (hshort : segment.payload.length < 2 ^ 16)
    (hat : segment.sequence = c.receiveNext) (hedge : sequenceBefore c.rightEdge
      (segment.sequence + UInt32.ofNat segment.payload.length) = false) :
    segment.payload.length ≤ receiveCapacity - c.receive.length := by
  have hroom : receiveCapacity - c.receive.length ≤ 8192 := Nat.sub_le _ _
  simp only [sequenceBefore, Connection.rightEdge, hat, decide_eq_false_iff_not, not_le,
    UInt32.toNat_sub, UInt32.toNat_add, UInt32.toNat_ofNat'] at hedge
  have := c.receiveNext.toNat_lt
  omega

theorem receiveData_error (sent : NetworkStatus) (segment : Segment) (e : Endpoint)
    (hfits : segment.sequence = e.connection.receiveNext →
      segment.payload.length ≤ receiveCapacity - e.connection.receive.length) :
    (Tcp.receiveData sent segment e).connection.error = e.connection.error := by
  simp only [Tcp.receiveData]
  split_ifs with hbrings hat hroom
  · rw [tcpAck_connection]
  · exact absurd (hfits (not_not.mp hat)) (by omega)
  all_goals simp

theorem receiveAcknowledgment_error (sent : NetworkStatus) (segment : Segment) (e : Endpoint)
    (hfits : segment.sequence = e.connection.receiveNext →
      segment.payload.length ≤ receiveCapacity - e.connection.receive.length) :
    (Tcp.receiveAcknowledgment sent segment e).connection.error = e.connection.error := by
  simp only [Tcp.receiveAcknowledgment]
  split_ifs
  · rfl
  · exact receiveData_error sent segment _ hfits
  · exact receiveData_error sent segment _ hfits

/-- Such a segment never exhausts the buffer. -/
theorem Received.not_noResources (h : Received S initial returned e) (sent : NetworkStatus)
    (hshort : segment.payload.length < 2 ^ 16)
    (hedge : sequenceBefore e.connection.rightEdge
      (segment.sequence + UInt32.ofNat segment.payload.length) = false)
    (herror : (tcpReceiveSegment sent segment e).connection.error = .noResources) :
    e.connection.error = .noResources := by
  obtain ⟨hlisten, hsent, hreceived⟩ := h.synchronized
  rw [tcpReceiveSegment] at herror
  split_ifs at herror
  · exact herror
  · split at herror
    · contradiction
    · contradiction
    · contradiction
    · rwa [receiveAcknowledgment_error sent segment e
        fun hat => fits_of_rightEdge hshort hat hedge] at herror

/-- A connection whose handshake is done and that has received nothing yet. -/
structure Established (c : Connection) : Prop where
  state : c.state = .established
  receive : c.receive = []
  peerClosed : c.peerClosed = false

theorem Established.received (h : Established c) (S : Bytes) :
    Received S c.receiveNext [] ⟨c, []⟩ where
  front := by simp [h.receive]
  next := by simp [h.receive, h.peerClosed]
  closed := by simp [h.peerClosed]
  room := by simp [h.receive]
  synchronized := by
    rw [h.state]
    decide
  announced := by simp

/-- Whatever segments of the peer's stream arrive in whatever order, and however the
connection is used: its reads and its buffer are the front of the stream that
`receive_next` counts, the right edge of the window never goes back, and a segment
that keeps to that edge never exhausts the buffer. -/
theorem receive_stream (S : Bytes) (c : Connection) (uses : List Use) (hopen : Established c)
    (hstream : ∀ u ∈ uses, ∀ a ∈ u.arrivals, a.OfStream S c.receiveNext) :
    Received S c.receiveNext (Reader.run ⟨⟨c, []⟩, []⟩ uses).returned
        (Reader.run ⟨⟨c, []⟩, []⟩ uses).endpoint ∧
      (∀ u : Use, (∀ a ∈ u.arrivals, a.OfStream S c.receiveNext) →
        sequenceBefore ((Reader.run ⟨⟨c, []⟩, []⟩ uses).use u).endpoint.connection.rightEdge
          (Reader.run ⟨⟨c, []⟩, []⟩ uses).endpoint.connection.rightEdge = false) ∧
      ∀ (segment : Segment) (sent : NetworkStatus), segment.payload.length < 2 ^ 16 →
        sequenceBefore (Reader.run ⟨⟨c, []⟩, []⟩ uses).endpoint.connection.rightEdge
          (segment.sequence + UInt32.ofNat segment.payload.length) = false →
        (tcpReceiveSegment sent segment
          (Reader.run ⟨⟨c, []⟩, []⟩ uses).endpoint).connection.error = .noResources →
        (Reader.run ⟨⟨c, []⟩, []⟩ uses).endpoint.connection.error = .noResources := by
  have h := Received.run (r := ⟨⟨c, []⟩, []⟩) (hopen.received S) hstream
  exact ⟨h, fun u hu => h.rightEdge_use hu, fun segment sent hshort hedge herror =>
    h.not_noResources sent hshort hedge herror⟩

end Received

abbrev pieceAt (sequence : UInt32) (flags : UInt8) (payload : Bytes) : Segment :=
  ⟨sequence, 100, flagAck ||| flags, 8192, payload⟩

/-- The end comes first, then an overlapping repetition, then the end again with the
end of the stream; two bytes are read in between. -/
abbrev shuffledUses : List Use :=
  [.call (.service [.segment (pieceAt 501 0 [8, 9]) .ok, .segment (pieceAt 500 0 [7, 8]) .ok]),
    .read 2 true [] ⟨[], .ok⟩,
    .call (.service [.segment (pieceAt 500 0 [7]) .ok, .segment (pieceAt 502 flagFin [9]) .ok])]

theorem shuffledUses_ofStream :
    ∀ u ∈ shuffledUses, ∀ a ∈ u.arrivals, a.OfStream [7, 8, 9] freshConnection.receiveNext := by
  have hpiece (j : ℕ) (flags : UInt8) (payload : Bytes) (hj : j ≤ 3)
      (hp : payload <+: List.drop j [7, 8, 9])
      (hfin : hasFlag (flagAck ||| flags) flagFin → j + payload.length = 3) :
      (pieceAt (500 + UInt32.ofNat j) flags payload).OfStream [7, 8, 9]
        freshConnection.receiveNext :=
    Segment.ofStream_of_offset (by decide) hj rfl hp hfin
  simp only [shuffledUses, forall_mem_cons, Use.arrivals, Call.arrivals, Arrival.OfStream,
    flatMap_nil, append_nil, not_mem_nil, false_imp_iff, implies_true, and_true,
    true_and]
  exact ⟨⟨hpiece 1 0 [8, 9] (by decide) (by decide) (by decide),
      hpiece 0 0 [7, 8] (by decide) (by decide) (by decide)⟩,
    hpiece 0 0 [7] (by decide) (by decide) (by decide),
    hpiece 2 flagFin [9] (by decide) (by decide) (by decide)⟩

theorem receive_stream_shuffled :
    Established freshConnection ∧
      (Reader.run ⟨⟨freshConnection, []⟩, []⟩ shuffledUses).returned = [7, 8] ∧
      Received [7, 8, 9] 500 (Reader.run ⟨⟨freshConnection, []⟩, []⟩ shuffledUses).returned
        (Reader.run ⟨⟨freshConnection, []⟩, []⟩ shuffledUses).endpoint :=
  have hopen : Established freshConnection := ⟨rfl, rfl, rfl⟩
  ⟨hopen, by decide,
    (receive_stream [7, 8, 9] freshConnection shuffledUses hopen shuffledUses_ofStream).1⟩

end OpenRFS.Tcp
