import OpenRFS.Tcp.Delivery

/-!
# Chunks that are acknowledged in time

While a chunk is outstanding, everything in front of it is acknowledged and the
segments of the log end in front of it or with it (`Writes`). The peer's text then
ends at one of these places too, so an acknowledgement is for all of the chunk or
for nothing of it, and a retransmission repeats the whole chunk at its place.
-/

namespace OpenRFS.Tcp

open List Connection Peer

/-- What holds while the text `text` is sent and all of it up to `base` is
acknowledged. -/
structure Writes (start : UInt32) (text : Bytes) (base : ℕ) (e : Endpoint) : Prop where
  next : e.connection.sendNext = start + UInt32.ofNat text.length
  base_le : base ≤ text.length
  small : text.length - base ≤ transmitCapacity
  window : e.connection.outstanding = 0 ∨
    e.connection.outstanding = text.length - base ∧ e.connection.retransmit = text.drop base
  segments : ∀ m ∈ e.emitted, m.payload ≠ [] → ∃ i, Placed start text m i ∧
    (i + m.payload.length ≤ base ∨ i = base ∧ i + m.payload.length = text.length)

variable {i n ℓ : ℕ} {stream : Bytes}

section Peer

variable {start : UInt32} {text : Bytes}

theorem Placed.payload_eq {m : Emission} (h : Placed start text m i) :
    m.payload = (text.drop i).take m.payload.length := by
  refine ext_getElem? fun k => ?_
  rcases lt_or_ge k m.payload.length with hk | hk
  · rw [getElem?_take_of_lt hk, getElem?_drop,
      h.bytes k _ (getElem?_eq_getElem hk), getElem?_eq_getElem hk]
  · rw [getElem?_eq_none hk, getElem?_eq_none]
    exact (length_take_le _ _).trans hk

theorem take_append_overlap (hi : i ≤ ℓ) (hn : ℓ ≤ i + n) :
    text.take ℓ ++ ((text.drop i).take n).drop (ℓ - i) = text.take (i + n) := by
  rw [drop_take, drop_drop, Nat.add_sub_cancel' hi, ← take_add]
  congr 1
  omega

/-- How much of a segment is known, unless it lies ahead. -/
theorem known_eq (hle : i ≤ ℓ) (hshort : ℓ < 2 ^ 32) :
    (start + UInt32.ofNat ℓ - (start + UInt32.ofNat i)).toNat = ℓ - i := by
  simp only [UInt32.toNat_sub, UInt32.toNat_add, UInt32.toNat_ofNat']
  have := start.toNat_lt
  omega

theorem le_known (hlt : ℓ < i) (hshort : i + n < 2 ^ 32) :
    n ≤ (start + UInt32.ofNat ℓ - (start + UInt32.ofNat i)).toNat := by
  simp only [UInt32.toNat_sub, UInt32.toNat_add, UInt32.toNat_ofNat']
  have := start.toNat_lt
  omega

theorem Peer.receive_placed {m : Emission} (h : Placed start text m i)
    (hshort : text.length < 2 ^ 32) (hℓ : ℓ ≤ text.length) :
    receive ⟨start + UInt32.ofNat ℓ, text.take ℓ⟩ m = ⟨start + UInt32.ofNat ℓ, text.take ℓ⟩ ∨
      receive ⟨start + UInt32.ofNat ℓ, text.take ℓ⟩ m =
        ⟨start + UInt32.ofNat (i + m.payload.length), text.take (i + m.payload.length)⟩ := by
  have hinside := h.inside
  simp only [receive, h.sequence]
  rcases lt_or_ge ℓ i with hlt | hle
  · rw [if_neg (not_lt.mpr (le_known hlt (by omega)))]
    exact .inl rfl
  · rw [known_eq hle (by omega)]
    split_ifs with hknown
    · refine .inr ?_
      rw [mk.injEq]
      constructor
      · rw [UInt32.add_assoc, ← UInt32.ofNat_add]
        congr 2
        omega
      · rw [← take_append_overlap hle (by omega), ← h.payload_eq]
    · exact .inl rfl

theorem Peer.receiveAll_eq {base : ℕ} {deliveries : List Emission} (hshort : text.length < 2 ^ 32)
    (hplaced : ∀ m ∈ deliveries, m.payload ≠ [] → ∃ i, Placed start text m i ∧
      (i + m.payload.length ≤ base ∨ i = base ∧ i + m.payload.length = text.length)) :
    ∃ ℓ, ℓ ≤ text.length ∧ (ℓ ≤ base ∨ ℓ = text.length) ∧
      receiveAll ⟨start, []⟩ deliveries = ⟨start + UInt32.ofNat ℓ, text.take ℓ⟩ := by
  induction deliveries using List.reverseRecOn with
  | nil => exact ⟨0, Nat.zero_le _, .inl (Nat.zero_le _), by simp [receiveAll]⟩
  | append_singleton deliveries m ih =>
    simp only [forall_mem_append, forall_mem_singleton] at hplaced
    obtain ⟨ℓ, hℓ, hend, heq⟩ := ih hplaced.1
    have hstep : receiveAll ⟨start, []⟩ (deliveries ++ [m]) =
        receive ⟨start + UInt32.ofNat ℓ, text.take ℓ⟩ m := by
      rw [← heq, receiveAll, foldl_append]
      rfl
    rw [hstep]
    by_cases hnil : m.payload = []
    · exact ⟨ℓ, hℓ, hend, by simp [receive, hnil]⟩
    · obtain ⟨i, hi, halign⟩ := hplaced.2 hnil
      rcases receive_placed hi hshort hℓ with hsame | hmore
      · exact ⟨ℓ, hℓ, hend, hsame⟩
      · exact ⟨_, hi.inside, halign.imp id And.right, hmore⟩

end Peer

section Edge

theorem receiveData_sending (sent : NetworkStatus) (segment : Segment) (e : Endpoint) :
    (receiveData sent segment e).connection.sendUnacknowledged = e.connection.sendUnacknowledged ∧
      (receiveData sent segment e).connection.retransmit = e.connection.retransmit ∧
      (receiveData sent segment e).connection.sendNext = e.connection.sendNext := by
  simp only [receiveData]
  split_ifs <;> simp

/-- What an arrival does to the left edge of the window: nothing, or it acknowledges
everything, or it is an acknowledgement inside the window. -/
def EdgeMove (e e' : Endpoint) (segment : Segment) : Prop :=
  e'.connection.sendUnacknowledged = e.connection.sendUnacknowledged ∧
      e'.connection.retransmit = e.connection.retransmit ∨
    e'.connection.sendUnacknowledged = e.connection.sendNext ∨
    hasFlag segment.flags flagAck = true ∧
      sequenceBefore segment.acknowledgment e.connection.sendUnacknowledged = false ∧
      sequenceBefore e.connection.sendNext segment.acknowledgment = false ∧
      e'.connection.sendUnacknowledged = segment.acknowledgment ∧
      e'.connection.retransmit = e.connection.retransmit

theorem edge_receiveAcknowledgment (sent : NetworkStatus) (segment : Segment) (e : Endpoint) :
    EdgeMove e (receiveAcknowledgment sent segment e) segment := by
  simp only [receiveAcknowledgment]
  split_ifs with hrefused hall
  · exact .inl ⟨rfl, rfl⟩
  · refine .inr (.inl ?_)
    rw [(receiveData_sending sent segment _).1]
    exact hall
  · simp only [Bool.or_eq_true, not_or, Bool.not_eq_true, Bool.not_eq_false'] at hrefused
    obtain ⟨hedge, hkept, -⟩ := receiveData_sending sent segment
      { e with connection := { e.connection with
        peerWindow := segment.window, sendUnacknowledged := segment.acknowledgment } }
    exact .inr (.inr ⟨hrefused.1.1.2, hrefused.1.2, hrefused.2, hedge, hkept⟩)

theorem edge_tcpReceiveSegment (sent : NetworkStatus) (segment : Segment) (e : Endpoint) :
    EdgeMove e (tcpReceiveSegment sent segment e) segment := by
  rw [tcpReceiveSegment]
  split_ifs
  · exact .inl ⟨rfl, rfl⟩
  · exact .inl ⟨rfl, rfl⟩
  · split
    · exact .inl ⟨rfl, rfl⟩
    · simp only [receiveSynReceived]
      split_ifs with hstray
      · exact .inl ⟨rfl, rfl⟩
      · simp only [Bool.or_eq_true, not_or, bne_iff_ne, ne_eq, not_not] at hstray
        refine .inr (.inl ?_)
        rcases edge_receiveAcknowledgment sent segment { e with connection := { e.connection with
            sendUnacknowledged := segment.acknowledgment, retransmitFlags := 0, retransmit := [],
            state := .established, peerWindow := segment.window } } with
          ⟨hedge, -⟩ | hedge | ⟨-, -, -, hedge, -⟩
        · exact hedge.trans hstray.1.2
        · exact hedge
        · exact hedge.trans hstray.1.2
    · simp only [receiveSynSent]
      split_ifs with hstray
      · exact .inl ⟨rfl, rfl⟩
      · simp only [not_or, ne_eq, not_not] at hstray
        refine .inr (.inl ?_)
        rw [tcpAck_connection]
        exact hstray.2
    · exact edge_receiveAcknowledgment sent segment e

end Edge

section Writes

variable {start : UInt32} {text : Bytes} {base : ℕ} {e e' : Endpoint}
  (h : Writes start text base e)
include h

theorem Writes.outstanding_lt : e.connection.outstanding < 2 ^ 31 := by
  have hsmall := h.small
  rw [transmitCapacity] at hsmall
  rcases h.window with hzero | ⟨hfull, -⟩
  · omega
  · omega

/-- The left edge stands in front of the chunk that is outstanding. -/
theorem Writes.edge (hfull : e.connection.outstanding = text.length - base) :
    e.connection.sendUnacknowledged = start + UInt32.ofNat base := by
  refine edge_eq_of_toNat_sub hfull ?_
  rw [h.next, UInt32.add_assoc, ← UInt32.ofNat_add, Nat.add_sub_cancel' h.base_le]

theorem Writes.passive (hp : Passive e e')
    (hwindow : e'.connection.outstanding = 0 ∨ e'.connection.outstanding = text.length - base ∧
        e'.connection.retransmit = text.drop base) : Writes start text base e' := by
  obtain ⟨added, hlog, hadded⟩ := hp.log
  refine ⟨hp.next.trans h.next, h.base_le, h.small, hwindow, fun m hm hne => ?_⟩
  rw [hlog] at hm
  rcases mem_append.mp hm with hm | hm
  · exact absurd (hadded m hm).1 hne
  · exact h.segments m hm hne

theorem Writes.kept (hp : Passive e e')
    (hedge : e'.connection.sendUnacknowledged = e.connection.sendUnacknowledged)
    (hkept : e'.connection.retransmit = e.connection.retransmit) : Writes start text base e' := by
  refine h.passive hp ?_
  rw [outstanding, hp.next, hedge, hkept]
  exact h.window

theorem Writes.settled (hp : Passive e e')
    (hedge : e'.connection.sendUnacknowledged = e.connection.sendNext) :
    Writes start text base e' := by
  refine h.passive hp (.inl ?_)
  simp [outstanding, hp.next, hedge]

variable (hshort : text.length < 2 ^ 32)
include hshort

/-- What the peer can have acknowledged, inside the window: all of the chunk that is
outstanding, or nothing of it. -/
theorem Writes.acknowledgment
    {deliveries : List Emission} (hsent : ∀ m ∈ deliveries, m ∈ e.emitted) {acknowledgment : UInt32}
    (hpeer : acknowledgment = (receiveAll ⟨start, []⟩ deliveries).next)
    (hedge : sequenceBefore acknowledgment e.connection.sendUnacknowledged = false)
    (hnext : sequenceBefore e.connection.sendNext acknowledgment = false) :
    acknowledgment = e.connection.sendNext ∨ acknowledgment = e.connection.sendUnacknowledged := by
  obtain ⟨ℓ, hℓ, hend, heq⟩ := receiveAll_eq hshort
    fun m hm => h.segments m (hsent m hm)
  rw [heq] at hpeer
  subst hpeer
  -- the left edge is at the end of the text or in front of the chunk
  obtain ⟨k, hk, hleft, hplace⟩ : ∃ k ≤ text.length,
      e.connection.sendUnacknowledged = start + UInt32.ofNat k ∧ (ℓ ≤ k ∨ ℓ = text.length) := by
    rcases h.window with hzero | ⟨hfull, -⟩
    · exact ⟨_, le_rfl, edge_eq_of_toNat_sub hzero (h.next.trans (UInt32.add_zero _).symm), .inl hℓ⟩
    · exact ⟨base, h.base_le, h.edge hfull, hend⟩
  rw [hleft] at hedge ⊢
  rw [h.next] at hnext ⊢
  have hsame : ℓ = text.length ∨ ℓ = k := by
    simp only [sequenceBefore, decide_eq_false_iff_not, not_le, UInt32.toNat_sub,
      UInt32.toNat_add, UInt32.toNat_ofNat'] at hedge hnext
    have := start.toNat_lt
    omega
  exact hsame.imp (by rw [·]) (by rw [·])

theorem Writes.arriveOne
    {a : Arrival} (ha : Genuine start e a) : Writes start text base (arriveOne e a) := by
  have hpassive := passive_arriveOne e a h.outstanding_lt
  cases a with
  | fail status | cancel => exact h.kept hpassive rfl rfl
  | segment segment sent =>
    rcases edge_tcpReceiveSegment sent segment e with
      ⟨hedge, hkept⟩ | hedge | ⟨hack, hleft, hright, hedge, hkept⟩
    · exact h.kept hpassive hedge hkept
    · exact h.settled hpassive hedge
    · obtain ⟨deliveries, hsent, hpeer⟩ := ha hack
      rcases h.acknowledgment hshort hsent hpeer hleft hright with heq | heq
      · exact h.settled hpassive (hedge.trans heq)
      · exact h.kept hpassive (hedge.trans heq) hkept

theorem Writes.service
    {arrivals : List Arrival} (ha : serviceMeets (Genuine start) e arrivals) :
    Writes start text base (service e arrivals) := by
  induction arrivals generalizing e with
  | nil => exact h
  | cons a arrivals ih => exact ih (h.arriveOne hshort ha.1) ha.2

omit hshort

theorem Writes.edit {c : Connection} (hnext : c.sendNext = e.connection.sendNext)
    (hedge : c.sendUnacknowledged = e.connection.sendUnacknowledged)
    (hkept : c.retransmit = e.connection.retransmit) :
    Writes start text base { e with connection := c } := by
  refine ⟨hnext.trans h.next, h.base_le, h.small, ?_, h.segments⟩
  rw [outstanding, hnext, hedge, hkept]
  exact h.window

theorem Writes.retransmit (hshort : text.length < 2 ^ 32)
    (hopen : e.connection.outstanding ≠ 0) {sending : Sending}
    (ha : retransmitMeets (Genuine start) e sending) :
    Writes start text base (tcpRetransmit sending e).2 := by
  simp only [tcpRetransmit]
  by_cases hgiveUp : e.connection.retransmitFlags = 0 ∨
      retransmissionLimit ≤ e.connection.retransmitCount
  · rw [if_pos hgiveUp]
    exact h.edit rfl rfl rfl
  rw [if_neg hgiveUp]
  have hcounted : Writes start text base { e with connection :=
      { e.connection with retransmitCount := e.connection.retransmitCount + 1 } } :=
    h.edit rfl rfl rfl
  have hpassive := passive_service _ sending.during hcounted.outstanding_lt
  have hserved := hcounted.service hshort (ha hgiveUp)
  rcases tcpEmit_cases (Tcp.service · sending.during) sending.sent true _
      e.connection.retransmitFlags e.connection.retransmit e.connection.sendUnacknowledged false
      false with ⟨status, -, heq | heq⟩ | ⟨hsize, m, hsequence, hpayload, -, -, hright, heq⟩
  · rw [heq]
    exact hcounted
  · rw [heq]
    exact hserved
  rw [heq]
  refine ⟨hserved.next, hserved.base_le, hserved.small, hserved.window,
    forall_mem_cons.mpr ⟨fun _ => ?_, hserved.segments⟩⟩
  obtain ⟨hfull, hkept⟩ := h.window.resolve_left hopen
  have hbase := h.base_le
  have hlength : m.payload.length = text.length - base := by
    rw [hpayload, hkept, length_drop]
  have hend : m.sendNext = start + UInt32.ofNat (base + m.payload.length) := by
    rw [hlength, Nat.add_sub_cancel' hbase]
    exact hright.trans (hpassive.next.trans h.next)
  refine ⟨base, ?_, .inr ⟨rfl, by omega⟩⟩
  refine ⟨hsequence.trans (h.edge hfull), hend, hpayload ▸ hsize, by omega, fun k x hk => ?_⟩
  rw [hpayload, hkept, getElem?_drop] at hk
  exact hk

/-- `tcp_wait_ack`. -/
theorem Writes.waitAck (hshort : text.length < 2 ^ 32)
    {polls : List Poll} (ha : waitMeets (Genuine start) e polls) :
    Writes start text base (tcpWaitAck e polls).2 := by
  induction polls generalizing e with
  | nil => exact h
  | cons poll polls ih =>
    obtain ⟨harrivals, hturn⟩ := ha
    have hserved := h.service hshort harrivals
    simp only [tcpWaitAck]
    generalize Tcp.service e poll.arrivals = served at hserved hturn ⊢
    by_cases hcancelled : served.connection.cancelled
    · rw [if_pos hcancelled]
      exact hserved
    rw [if_neg hcancelled]
    by_cases herror : served.connection.error ≠ .ok
    · rw [if_pos herror]
      exact hserved
    rw [if_neg herror]
    by_cases hall : served.connection.sendUnacknowledged = served.connection.sendNext
    · rw [if_pos hall]
      exact hserved
    obtain ⟨hmeets, hrest⟩ := hturn (by simpa using hcancelled) (not_not.mp herror) hall
    have hopen : served.connection.outstanding ≠ 0 := fun hzero =>
      hall (edge_eq_of_toNat_sub hzero (UInt32.add_zero _).symm)
    generalize hdecided : (if poll.retransmissionDue = true then tcpRetransmit poll.sending served
      else (NetworkStatus.ok, served)) = turned at hrest ⊢
    have hturned : Writes start text base turned.2 := by
      rw [← hdecided]
      split_ifs with hdue
      · exact hserved.retransmit hshort hopen (hmeets hdue)
      · exact hserved
    split_ifs with hstatus hwakes
    · exact hturned
    · exact hturned
    · exact ih hturned (hrest (not_not.mp hstatus))

theorem Writes.settle (hall : e.connection.sendUnacknowledged = e.connection.sendNext) :
    Writes start text text.length e where
  next := h.next
  base_le := le_rfl
  small := by simp
  window := .inl (by simp [outstanding, hall])
  segments := fun m hm hne => by
    obtain ⟨i, hi, -⟩ := h.segments m hm hne
    exact ⟨i, hi, .inl hi.inside⟩

omit h

theorem Writes.sendChunk (h : Writes start text text.length e) (hshort : text.length < 2 ^ 32)
    (bytes : Bytes) {sending : Sending} (ha : serviceMeets (Genuine start) { e with connection :=
      { e.connection with sendUnacknowledged := e.connection.sendNext } } sending.during) :
    (sendChunk e bytes sending).1 ≠ .ok ∧
        Writes start text text.length (sendChunk e bytes sending).2 ∨
      (sendChunk e bytes sending).1 = .ok ∧
        Writes start (text ++ bytes.take e.connection.peerMss) text.length
          (sendChunk e bytes sending).2 := by
  set reset : Endpoint := { e with connection :=
    { e.connection with sendUnacknowledged := e.connection.sendNext } }
  have hreset : Writes start text text.length reset :=
    ⟨h.next, le_rfl, h.small, .inl (by simp [reset, outstanding]), h.segments⟩
  have hpassive := passive_service _ sending.during hreset.outstanding_lt
  have hserved := hreset.service hshort ha
  rw [Tcp.sendChunk]
  generalize bytes.take e.connection.peerMss = chunk
  rcases tcpEmit_cases (Tcp.service · sending.during) sending.sent false _ (flagAck ||| flagPsh)
      chunk e.connection.sendNext true true with
    ⟨status, hstatus, heq | heq⟩ | ⟨hsmall, m, hsequence, hpayload, -, -, hnext, heq⟩
  · rw [heq]
    exact .inl ⟨hstatus, hreset⟩
  · rw [heq]
    exact .inl ⟨hstatus, hserved⟩
  refine .inr ?_
  rw [heq]
  refine ⟨rfl, ?_⟩
  have hlength : sequenceLength (flagAck ||| flagPsh) chunk = UInt32.ofNat chunk.length :=
    UInt32.add_zero _
  have hend : (Tcp.service reset sending.during).connection.sendNext +
      sequenceLength (flagAck ||| flagPsh) chunk =
      start + UInt32.ofNat (text.length + chunk.length) := by
    rw [hserved.next, hlength, UInt32.ofNat_add, UInt32.add_assoc]
  refine ⟨?_, by simp, by simpa using hsmall, .inr ⟨?_, by simp [advance, keep]⟩,
    forall_mem_cons.mpr ⟨fun _ => ?_, fun m' hm' hne => ?_⟩⟩
  · rw [length_append]
    exact hend
  · have hzero : (Tcp.service reset sending.during).connection.outstanding = 0 :=
      Nat.le_zero.mp (hpassive.outstanding_le.trans (by simp [reset, outstanding]))
    refine (outstanding_advance hzero _ chunk).trans ?_
    rw [hlength, UInt32.toNat_ofNat', length_append, Nat.add_sub_cancel_left]
    exact Nat.mod_eq_of_lt (hsmall.trans_lt (by decide))
  · refine ⟨text.length, ?_, .inr ⟨rfl, by rw [length_append, hpayload]⟩⟩
    rw [← hpayload]
    exact placed_last (hpayload ▸ hsmall) (hsequence.trans h.next) (hpayload ▸ hnext.trans hend)
  · obtain ⟨i, hi, hfront⟩ := hserved.segments m' hm' hne
    exact ⟨i, hi.mono chunk, .inl hi.inside⟩

/-- A call that ends before its next chunk goes out. -/
theorem Writes.nothing (h : Writes start text text.length e) {written : ℕ} {bytes : Bytes} :
    ∃ k, k ≤ bytes.length ∧ written = written + k ∧
      Writes start (text ++ bytes.take k) (text ++ bytes.take k).length e :=
  ⟨0, Nat.zero_le _, rfl, by simpa using h⟩

theorem Writes.writeChunks (h : Writes start text text.length e) (written : ℕ) {bytes : Bytes}
    (hshort : text.length + bytes.length < 2 ^ 32) {rounds : List (Sending × List Poll)}
    (ha : roundsMeet (Genuine start) e bytes rounds) (htime : inTime e bytes rounds) :
    ∃ k, k ≤ bytes.length ∧ (Tcp.writeChunks e written bytes rounds).1.2 = written + k ∧
      Writes start (text ++ bytes.take k) (text ++ bytes.take k).length
        (Tcp.writeChunks e written bytes rounds).2 := by
  induction rounds generalizing text e written bytes with
  | nil => exact h.nothing
  | cons round rounds ih =>
    obtain ⟨sending, polls⟩ := round
    simp only [Tcp.writeChunks, ← Tcp.sendChunk.eq_1]
    by_cases hnil : bytes.length = 0
    · rw [if_pos hnil]
      exact h.nothing
    rw [if_neg hnil]
    obtain ⟨harrivals, hwait⟩ := ha fun h => hnil (by simp [h])
    have hisEmpty : bytes.isEmpty = false := by simpa [List.isEmpty_iff] using hnil
    simp only [inTime, hisEmpty, Bool.false_or, Bool.or_eq_true, Bool.and_eq_true,
      bne_iff_ne, beq_iff_eq] at htime
    rcases h.sendChunk (by omega) bytes harrivals with ⟨hstatus, hfailed⟩ | ⟨hstatus, hsent⟩
    · rw [if_pos hstatus]
      exact hfailed.nothing
    rw [if_neg (not_not.mpr hstatus)]
    obtain ⟨hpolls, hrounds⟩ := hwait hstatus
    obtain ⟨⟨hok, hall⟩, hrest⟩ := htime.resolve_left (not_not.mpr hstatus)
    rw [if_neg (not_not.mpr hok)]
    generalize hchunk : bytes.take e.connection.peerMss = chunk at hsent hrounds hrest ⊢
    have hbytes : chunk ++ bytes.drop chunk.length = bytes := by
      rw [← hchunk]
      exact prefix_iff_eq_append.mp ( take_prefix _ _)
    have hlengths := congrArg List.length hbytes
    rw [length_append] at hlengths
    have hsettled := Writes.settle (hsent.waitAck (by rw [length_append]; omega) hpolls) hall
    obtain ⟨k, hk, hreported, hwrites⟩ := ih hsettled (written + chunk.length)
      (by rw [length_append]; omega) (hrounds hok) hrest
    refine ⟨chunk.length + k, by omega, by rw [hreported, add_assoc], ?_⟩
    have htake : bytes.take (chunk.length + k) = chunk ++ (bytes.drop chunk.length).take k := by
      conv_lhs => rw [← hbytes]
      rw [take_append]
      simp
    rw [htake, ← append_assoc]
    exact hwrites

theorem Writes.act {s : Session} (h : Writes start (stream.take s.reported) s.reported s.endpoint)
    (hle : s.reported ≤ stream.length) (hshort : stream.length < 2 ^ 32) {act : Act}
    (ha : act.genuine start stream s) (htime : act.inTime stream s) :
    Writes start (stream.take (s.act stream act).reported) (s.act stream act).reported
        (s.act stream act).endpoint ∧ (s.act stream act).reported ≤ stream.length := by
  have hlength : (stream.take s.reported).length = s.reported := length_take_of_le hle
  cases act with
  | service arrivals => exact ⟨h.service (by omega) ha, hle⟩
  | write length timer rounds =>
    simp only [Session.act, Tcp.networkTcpWrite]
    split_ifs with herror hstate htimer
    · exact ⟨h, hle⟩
    · exact ⟨h, hle⟩
    · exact ⟨h, hle⟩
    have hwrites : s.writes timer := by
      simp only [Session.writes, Bool.and_eq_true, Bool.or_eq_true, beq_iff_eq]
      exact ⟨⟨not_not.mp herror, by tauto⟩, by simpa using htimer⟩
    have htime : Tcp.inTime s.endpoint (s.rest stream length) rounds := by
      simpa [Act.inTime, hwrites] using htime
    have hrest : (s.rest stream length).length ≤ stream.length - s.reported := by
      simp [Session.rest]
    have hall : Writes start (stream.take s.reported) (stream.take s.reported).length
        s.endpoint := by
      rw [hlength]
      exact h
    obtain ⟨k, hk, hreported, hsent⟩ := hall.writeChunks 0 (by omega) (ha hwrites) htime
    have htext : stream.take s.reported ++ (s.rest stream length).take k =
        stream.take (s.reported + k) := by
      have hkle : k ≤ length := hk.trans (by simp [Session.rest])
      rw [Session.rest, take_take, min_eq_left hkle, ← take_add]
    have hend : (stream.take (s.reported + k)).length = s.reported + k :=
      length_take_of_le (by omega)
    rw [htext, hend] at hsent
    rw [hreported, zero_add]
    exact ⟨hsent, by omega⟩

theorem Writes.run {s : Session} (h : Writes start (stream.take s.reported) s.reported s.endpoint)
    (hle : s.reported ≤ stream.length) (hshort : stream.length < 2 ^ 32) {acts : List Act}
    (ha : actsGenuine start stream s acts) (htime : actsInTime stream s acts) :
    Writes start (stream.take (s.run stream acts).reported) (s.run stream acts).reported
      (s.run stream acts).endpoint := by
  induction acts generalizing s with
  | nil => exact h
  | cons act acts ih =>
    simp only [actsInTime, Bool.and_eq_true] at htime
    obtain ⟨hact, hle'⟩ := h.act hle hshort ha.1 htime.1
    exact ih hact hle' ha.2 htime.2

theorem Writes.delivered (h : Writes start (stream.take n) base e)
    (hshort : stream.length < 2 ^ 32) : Delivered start stream e := by
  intro deliveries hsent
  obtain ⟨ℓ, -, -, heq⟩ := receiveAll_eq
    (show (stream.take n).length < 2 ^ 32 from (length_take_le' _ _).trans_lt hshort)
    fun m hm => h.segments m (hsent m hm)
  rw [heq]
  exact ( take_prefix _ _).trans ( take_prefix _ _)

theorem Opened.writes {c : Connection} (h : Opened c) : Writes c.sendNext [] 0 ⟨c, []⟩ where
  next := (UInt32.add_zero _).symm
  base_le := le_rfl
  small := Nat.zero_le _
  window := .inl (by simp [outstanding, h.acknowledged])
  segments := by simp

/-- If every chunk that goes out is acknowledged before its call ends, then the peer
has a front of the callers' stream, and after every call nothing that was sent
waits for its acknowledgement. -/
theorem delivered_of_inTime (stream : Bytes) (c : Connection) (acts : List Act)
    (hopen : Opened c) (hshort : stream.length < 2 ^ 32)
    (hgenuine : actsGenuine c.sendNext stream ⟨⟨c, []⟩, 0⟩ acts)
    (htime : actsInTime stream ⟨⟨c, []⟩, 0⟩ acts = true) :
    Delivered c.sendNext stream (Session.run stream ⟨⟨c, []⟩, 0⟩ acts).endpoint ∧
      (Session.run stream ⟨⟨c, []⟩, 0⟩ acts).endpoint.connection.sendUnacknowledged =
        (Session.run stream ⟨⟨c, []⟩, 0⟩ acts).endpoint.connection.sendNext := by
  have h := Writes.run (s := ⟨⟨c, []⟩, 0⟩) hopen.writes (Nat.zero_le _) hshort hgenuine htime
  refine ⟨h.delivered hshort, edge_eq_of_toNat_sub ?_ (UInt32.add_zero _).symm⟩
  rcases h.window with hzero | ⟨hfull, -⟩
  · exact hzero
  · exact hfull.trans (Nat.sub_eq_zero_of_le (length_take_le _ _))

end Writes

abbrev chunkWritten (length : ℕ) (polls : List Poll) : Act :=
  .write length true [(⟨[], .ok⟩, polls)]

abbrev acknowledgedPoll (acknowledgment : UInt32) : Poll :=
  ⟨[.segment ⟨500, acknowledgment, flagAck, 8192, []⟩ .ok], false, ⟨[], .ok⟩, true⟩

abbrev promptActs : List Act := [chunkWritten 2 [acknowledgedPoll 102]]

theorem promptActs_genuine : actsGenuine 100 [1, 2, 3] ⟨⟨freshConnection, []⟩, 0⟩ promptActs := by
  refine ⟨fun _ _ => ⟨trivial, fun _ => ⟨⟨⟨fun _ => ?_, trivial⟩, ?_⟩, fun _ => trivial⟩⟩, trivial⟩
  · exact ⟨_, fun m hm => hm, by decide⟩
  · exact fun _ _ hopen => absurd rfl hopen

theorem delivered_prompt :
    Opened freshConnection ∧ actsInTime [1, 2, 3] ⟨⟨freshConnection, []⟩, 0⟩ promptActs = true ∧
      Delivered 100 [1, 2, 3]
        (Session.run [1, 2, 3] ⟨⟨freshConnection, []⟩, 0⟩ promptActs).endpoint :=
  have hopen : Opened freshConnection := ⟨.inl rfl, rfl, rfl⟩
  ⟨hopen, by decide, (delivered_of_inTime [1, 2, 3] freshConnection promptActs hopen (by decide)
    promptActs_genuine (by decide)).1⟩

abbrev retriedActs : List Act := [chunkWritten 1 [], chunkWritten 1 []]

/-- The peer gets the byte twice. -/
theorem retried_byte_delivered_twice :
    Opened freshConnection ∧ actsGenuine 100 [1] ⟨⟨freshConnection, []⟩, 0⟩ retriedActs ∧
      (Session.run [1] ⟨⟨freshConnection, []⟩, 0⟩ [chunkWritten 1 []]).reported = 0 ∧
      ¬ Delivered 100 [1] (Session.run [1] ⟨⟨freshConnection, []⟩, 0⟩ retriedActs).endpoint := by
  refine ⟨⟨.inl rfl, rfl, rfl⟩, ?_, by decide, fun h => ?_⟩
  · exact ⟨fun _ _ => ⟨trivial, fun _ => ⟨trivial, fun _ => trivial⟩⟩,
      fun _ _ => ⟨trivial, fun _ => ⟨trivial, fun _ => trivial⟩⟩, trivial⟩
  · have htext := h (Session.run [1] ⟨⟨freshConnection, []⟩, 0⟩ retriedActs).endpoint.emitted.reverse
      fun m hm => mem_reverse.mp hm
    exact absurd htext (by decide)

end OpenRFS.Tcp
