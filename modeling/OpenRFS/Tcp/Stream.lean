import OpenRFS.Tcp.Passive

/-!
# The stream of a TCP connection

A connection that sends one consistent stream never puts two different bytes at one
sequence number, and no byte at or behind `send_next`. What can break this is a
retransmission: it sends the whole segment that is kept, at the left edge of the
window, and that edge has moved if a part of the segment was acknowledged.

The invariant `Sends` follows the bytes that were sent for the first time. As long
as every retransmission finds its segment unacknowledged as a whole (`Whole`), all
segments are pieces of that text.
-/

namespace OpenRFS.Tcp

open List Connection

def Emission.numberOf (m : Emission) (i : ℕ) : UInt32 := m.sequence + UInt32.ofNat i

/-- Any two bytes at one sequence number are equal, and every byte is in front of
`send_next`. -/
structure Consistent (log : List Emission) : Prop where
  agree : ∀ m ∈ log, ∀ m' ∈ log, ∀ (i j : ℕ) (x y : UInt8), m.payload[i]? = some x →
    m'.payload[j]? = some y → m.numberOf i = m'.numberOf j → x = y
  behind : ∀ m ∈ log, ∀ i < m.payload.length, sequenceBefore (m.numberOf i) m.sendNext = true

/-- A retransmission of data finds nothing of its segment acknowledged: as many
sequence numbers are outstanding as the segment has bytes. -/
def Whole (m : Emission) : Prop :=
  m.retransmission = true → m.payload ≠ [] →
    (m.sendNext - m.unacknowledged).toNat = m.payload.length

instance : DecidablePred Whole := fun m =>
  inferInstanceAs (Decidable (m.retransmission = true → m.payload ≠ [] →
    (m.sendNext - m.unacknowledged).toNat = m.payload.length))

/-- The segment is the piece of the text in front of its right edge. -/
structure Placed (start : UInt32) (text : Bytes) (m : Emission) (i : ℕ) : Prop where
  sequence : m.sequence = start + UInt32.ofNat i
  sendNext : m.sendNext = start + UInt32.ofNat (i + m.payload.length)
  small : m.payload.length ≤ transmitCapacity
  inside : i + m.payload.length ≤ text.length
  bytes : ∀ k x, m.payload[k]? = some x → text[i + k]? = some x

/-- What holds of an endpoint that has sent `text` from the sequence number `start`
on, and with `fin` also the end of the stream. -/
structure Sends (start : UInt32) (text : Bytes) (fin : Bool) (e : Endpoint) : Prop where
  next : e.connection.sendNext = start + UInt32.ofNat (text.length + fin.toNat)
  kept : ∃ front, text = front ++ e.connection.retransmit
  small : e.connection.retransmit.length ≤ transmitCapacity
  window : e.connection.outstanding ≤ e.connection.retransmit.length + fin.toNat
  closing : fin = true → e.connection.retransmit = [] ∧ e.connection.finSent = true ∧
    e.connection.state.Closing
  edges : ∀ m ∈ e.emitted, m.retransmission = true → m.payload ≠ [] →
    m.sequence = m.unacknowledged ∧ m.payload.length ≤ transmitCapacity ∧
      (m.sendNext - m.unacknowledged).toNat ≤ m.payload.length
  placed : (∀ m ∈ e.emitted, Whole m) → ∀ m ∈ e.emitted, m.payload ≠ [] → ∃ i, Placed start text m i

section Sends

variable {start : UInt32} {text : Bytes} {fin : Bool} {e e' : Endpoint}

/-- A text may be extended at its end. -/
theorem Placed.mono {m : Emission} {i : ℕ} (h : Placed start text m i) (more : Bytes) :
    Placed start (text ++ more) m i :=
  ⟨h.sequence, h.sendNext, h.small, h.inside.trans (by simp), fun k x hk => by
    obtain ⟨hlt, -⟩ := List.getElem?_eq_some_iff.mp (h.bytes k x hk)
    rw [List.getElem?_append_left hlt]
    exact h.bytes k x hk⟩

/-- The last piece of a text is placed in front of its end. -/
theorem placed_last {front : Bytes} {m : Emission} (hsmall : m.payload.length ≤ transmitCapacity)
    (hsequence : m.sequence = start + UInt32.ofNat front.length)
    (hnext : m.sendNext = start + UInt32.ofNat (front.length + m.payload.length)) :
    Placed start (front ++ m.payload) m front.length :=
  ⟨hsequence, hnext, hsmall, by simp, fun k x hk => by
    rw [getElem?_append_right (Nat.le_add_right _ _), Nat.add_sub_cancel_left]
    exact hk⟩

theorem edge_eq_of_toNat_sub {next edge base : UInt32} {n : ℕ} (h : (next - edge).toNat = n)
    (hnext : next = base + UInt32.ofNat n) : edge = base := by
  have hback := UInt32.sub_add_cancel next edge
  rw [← UInt32.ofNat_toNat (x := next - edge), h, hnext, UInt32.add_comm base] at hback
  exact (UInt32.add_right_inj _).mp hback

variable (h : Sends start text fin e)
include h

theorem Sends.outstanding_lt : e.connection.outstanding < 2 ^ 31 := by
  have hwindow := h.window
  have hsmall := h.small
  have hfin : fin.toNat ≤ 1 := Bool.toNat_le fin
  simp only [transmitCapacity] at hsmall
  omega

theorem Sends.passive (hp : Passive e e') : Sends start text fin e' := by
  obtain ⟨added, hlog, hadded⟩ := hp.log
  refine ⟨hp.next.trans h.next, ?_, ?_, ?_, fun hfin => ?_, fun m hm => ?_, fun hwhole m hm => ?_⟩
  · rcases hp.window with ⟨hkept, -⟩ | ⟨hnil, -⟩
    · rw [hkept]
      exact h.kept
    · exact ⟨text, by simp [hnil]⟩
  · rcases hp.window with ⟨hkept, -⟩ | ⟨hnil, -⟩
    · rw [hkept]
      exact h.small
    · simp [hnil]
  · rcases hp.window with ⟨hkept, hle⟩ | ⟨-, hzero⟩
    · rw [hkept]
      exact hle.trans h.window
    · exact hzero.trans_le (Nat.zero_le _)
  · obtain ⟨hnil, hsent, hclosing⟩ := h.closing hfin
    refine ⟨?_, hp.finSent.trans hsent, hp.closing hsent hclosing⟩
    rcases hp.window with ⟨hkept, -⟩ | ⟨hnil', -⟩
    · exact hkept.trans hnil
    · exact hnil'
  · rw [hlog] at hm
    intro hre hne
    rcases mem_append.mp hm with hm | hm
    · exact absurd (hadded m hm).1 hne
    · exact h.edges m hm hre hne
  · rw [hlog] at hm hwhole
    intro hne
    rcases mem_append.mp hm with hm | hm
    · exact absurd (hadded m hm).1 hne
    · exact h.placed (fun m hm => hwhole m (mem_append_right _ hm)) m hm hne

theorem Sends.service (arrivals : List Arrival) : Sends start text fin (service e arrivals) :=
  h.passive (passive_service e arrivals h.outstanding_lt)

/-- A retransmission keeps the invariant; where nothing of the segment is
acknowledged it repeats the last piece of the text. -/
theorem Sends.retransmit (sending : Sending) :
    Sends start text fin (tcpRetransmit sending e).2 := by
  simp only [tcpRetransmit]
  split_ifs with hgiveUp
  · exact h.passive (Passive.edit rfl rfl rfl rfl fun _ h => h)
  have hcounted : Sends start text fin
      { e with connection := { e.connection with
          retransmitCount := e.connection.retransmitCount + 1 } } :=
    h.passive (Passive.edit rfl rfl rfl rfl fun _ h => h)
  have hpassive := passive_service _ sending.during hcounted.outstanding_lt
  have hserved := hcounted.passive hpassive
  rcases tcpEmit_cases (Tcp.service · sending.during) sending.sent true _
      e.connection.retransmitFlags e.connection.retransmit e.connection.sendUnacknowledged false
      false with ⟨status, -, heq | heq⟩ | ⟨-, m, hsequence, hpayload, hre, hedge, hnext, heq⟩
  · rw [heq]
    exact hcounted
  · rw [heq]
    exact hserved
  rw [heq]
  have hright : m.sendNext = e.connection.sendNext := hnext.trans hpassive.next
  have hfinal : m.payload ≠ [] → fin = false := by
    intro hne
    by_contra hfin
    exact hne (hpayload.trans (h.closing (by simpa using hfin)).1)
  refine ⟨hserved.next, hserved.kept, hserved.small, hserved.window, hserved.closing,
    forall_mem_cons.mpr ⟨fun _ hne => ?_, hserved.edges⟩, fun hwhole =>
      forall_mem_cons.mpr ⟨fun hne => ?_, hserved.placed (forall_mem_cons.mp hwhole).2⟩⟩
  · have hwindow := h.window
    rw [hfinal hne, outstanding] at hwindow
    refine ⟨hsequence.trans hedge.symm, hpayload ▸ h.small, ?_⟩
    rw [hright, hedge, hpayload]
    exact hwindow
  · obtain ⟨front, htext⟩ := h.kept
    have hend : m.sendNext = start + UInt32.ofNat (front.length + m.payload.length) := by
      rw [hright, h.next, hfinal hne, htext, hpayload]
      simp
    have hstart : m.sequence = start + UInt32.ofNat front.length := by
      refine (hsequence.trans hedge.symm).trans
        (edge_eq_of_toNat_sub (hwhole m mem_cons_self hre hne) ?_)
      rw [hend, UInt32.ofNat_add, UInt32.add_assoc]
    rw [htext, ← hpayload]
    exact ⟨_, placed_last (hpayload ▸ h.small) hstart hend⟩

theorem Sends.acknowledgeAll :
    Sends start text fin
      { e with connection := { e.connection with sendUnacknowledged := e.connection.sendNext } } :=
  h.passive (Passive.acknowledgeAll rfl rfl (.inl rfl) rfl fun _ h => h)

omit h

theorem Sends.shut (h : Sends start text false e) :
    Sends start text false
      { e with connection :=
          { e.connection with
            sendUnacknowledged := e.connection.sendNext
            finSent := true
            state := .finWait } } :=
  ⟨h.next, h.kept, h.small, by simp [outstanding], nofun, h.edges, h.placed⟩

theorem outstanding_advance {c : Connection} (h : c.outstanding = 0) (flags : UInt8)
    (payload : Bytes) :
    ((c.keep true flags payload).advance true flags payload).outstanding =
      (sequenceLength flags payload).toNat := by
  have hedge : c.sendUnacknowledged = c.sendNext := edge_eq_of_toNat_sub h (UInt32.add_zero _).symm
  change (c.sendNext + sequenceLength flags payload - c.sendUnacknowledged).toNat = _
  rw [hedge, UInt32.add_comm, UInt32.add_sub_cancel]

theorem Sends.emitData (h : Sends start text false e)
    (hedge : e.connection.outstanding = 0) (sending : Sending) (chunk : Bytes) :
    ∃ text', text'.length ≤ text.length + chunk.length ∧
      Sends start text' false (tcpEmit (Tcp.service · sending.during) sending.sent false e
        (flagAck ||| flagPsh) chunk e.connection.sendNext true true).2 := by
  have hpassive := passive_service e sending.during h.outstanding_lt
  have hserved := h.passive hpassive
  rcases tcpEmit_cases (Tcp.service · sending.during) sending.sent false e (flagAck ||| flagPsh)
      chunk e.connection.sendNext true true with
    ⟨status, -, heq | heq⟩ | ⟨hsmall, m, hsequence, hpayload, hre, -, hnext, heq⟩
  · exact ⟨text, Nat.le_add_right _ _, by rw [heq]; exact h⟩
  · exact ⟨text, Nat.le_add_right _ _, by rw [heq]; exact hserved⟩
  have hlength : sequenceLength (flagAck ||| flagPsh) chunk = UInt32.ofNat chunk.length :=
    UInt32.add_zero _
  have hstart : e.connection.sendNext = start + UInt32.ofNat text.length := by
    rw [h.next]
    rfl
  have hend : (Tcp.service e sending.during).connection.sendNext +
      sequenceLength (flagAck ||| flagPsh) chunk =
        start + UInt32.ofNat (text.length + chunk.length) := by
    rw [hpassive.next, hstart, hlength, UInt32.ofNat_add, UInt32.add_assoc]
  have hright : m.sendNext = start + UInt32.ofNat (text.length + chunk.length) := hnext.trans hend
  refine ⟨text ++ chunk, by simp, ?_⟩
  rw [heq]
  refine ⟨?_, ⟨text, rfl⟩, hsmall, ?_, nofun,
    forall_mem_cons.mpr ⟨fun h => absurd (hre.symm.trans h) nofun, hserved.edges⟩, fun hwhole =>
      forall_mem_cons.mpr ⟨fun _ => ?_, fun m' hm' hne => ?_⟩⟩
  · rw [length_append]
    exact hend
  · have hzero : (Tcp.service e sending.during).connection.outstanding = 0 :=
      Nat.le_zero.mp (hedge ▸ hpassive.outstanding_le)
    refine (outstanding_advance hzero _ chunk).trans_le ?_
    rw [hlength, UInt32.toNat_ofNat']
    exact Nat.mod_le _ _
  · rw [← hpayload]
    exact ⟨_, placed_last (hpayload ▸ hsmall) (hsequence.trans hstart) (hpayload ▸ hright)⟩
  · obtain ⟨i, hi⟩ := hserved.placed (forall_mem_cons.mp hwhole).2 m' hm' hne
    exact ⟨i, hi.mono chunk⟩

theorem Sends.emitFin (h : Sends start text false e) (hedge : e.connection.outstanding = 0)
    (hsent : e.connection.finSent) (hclosing : e.connection.state.Closing)
    (sending : Sending) :
    ∃ fin, Sends start text fin (tcpEmit (Tcp.service · sending.during) sending.sent false e
      (flagFin ||| flagAck) [] e.connection.sendNext true true).2 := by
  have hpassive := passive_service e sending.during h.outstanding_lt
  have hserved := h.passive hpassive
  rcases tcpEmit_cases (Tcp.service · sending.during) sending.sent false e (flagFin ||| flagAck)
      [] e.connection.sendNext true true with
    ⟨status, -, heq | heq⟩ | ⟨-, m, -, hpayload, -, -, -, heq⟩
  · exact ⟨false, by rw [heq]; exact h⟩
  · exact ⟨false, by rw [heq]; exact hserved⟩
  refine ⟨true, ?_⟩
  rw [heq]
  refine ⟨?_, ⟨text, (append_nil _).symm⟩, Nat.zero_le _, ?_,
    fun _ => ⟨rfl, hpassive.finSent.trans hsent, hpassive.closing hsent hclosing⟩,
    forall_mem_cons.mpr ⟨fun _ hne => absurd hpayload hne, hserved.edges⟩, fun hwhole =>
      forall_mem_cons.mpr ⟨absurd hpayload, hserved.placed (forall_mem_cons.mp hwhole).2⟩⟩
  · change (Tcp.service e sending.during).connection.sendNext + 1 = _
    rw [hserved.next, Bool.toNat_true, Bool.toNat_false, UInt32.ofNat_add text.length 1,
      ← UInt32.add_assoc]
    rfl
  · have hzero : (Tcp.service e sending.during).connection.outstanding = 0 :=
      Nat.le_zero.mp (hedge ▸ hpassive.outstanding_le)
    exact (outstanding_advance hzero _ []).le

theorem Sends.turns (start : UInt32) (text : Bytes) (fin : Bool) (polls : List Poll) :
    Turns (Sends start text fin) polls :=
  ⟨fun poll _ _ h => h.service poll.arrivals, fun poll _ _ h => h.retransmit poll.sending⟩

theorem Sends.writeChunks (h : Sends start text false e) (written : ℕ) (bytes : Bytes)
    (rounds : List (Sending × List Poll)) :
    ∃ text', text'.length ≤ text.length + bytes.length ∧
      Sends start text' false (Tcp.writeChunks e written bytes rounds).2 := by
  induction rounds generalizing text e written bytes with
  | nil => exact ⟨text, Nat.le_add_right _ _, h⟩
  | cons round rounds ih =>
    obtain ⟨sending, polls⟩ := round
    obtain ⟨text₁, hlength₁, h₁⟩ := h.acknowledgeAll.emitData (by simp [outstanding])
      sending (bytes.take e.connection.peerMss)
    have hshort : text₁.length ≤ text.length + bytes.length := by
      rw [length_take] at hlength₁
      omega
    simp only [Tcp.writeChunks]
    generalize tcpEmit _ _ _ _ _ _ _ _ _ = sent at h₁ ⊢
    have h₂ := (Sends.turns _ _ _ polls).tcpWaitAck h₁
    generalize tcpWaitAck _ _ = waited at h₂ ⊢
    split_ifs
    · exact ⟨text, Nat.le_add_right _ _, h⟩
    · exact ⟨text₁, hshort, h₁⟩
    · exact ⟨text₁, hshort, h₂⟩
    · obtain ⟨text', hlength', h'⟩ := ih h₂ (written + (bytes.take e.connection.peerMss).length)
        (bytes.drop (bytes.take e.connection.peerMss).length)
      refine ⟨text', ?_, h'⟩
      rw [length_drop] at hlength'
      have := length_take_le e.connection.peerMss bytes
      have := length_take_le' e.connection.peerMss bytes
      omega

theorem Sends.networkTcpWrite (h : Sends start text fin e) (bytes : Bytes) (timer : Bool)
    (rounds : List (Sending × List Poll)) :
    ∃ text', text'.length ≤ text.length + bytes.length ∧
      Sends start text' fin (Tcp.networkTcpWrite e bytes timer rounds).2 := by
  have hsame : text.length ≤ text.length + bytes.length := Nat.le_add_right _ _
  rw [Tcp.networkTcpWrite]
  split_ifs with herror hstate htimer
  · exact ⟨text, hsame, h⟩
  · exact ⟨text, hsame, h⟩
  · exact ⟨text, hsame, h⟩
  · cases fin with
    | false => exact h.writeChunks 0 bytes rounds
    | true =>
      exfalso
      obtain ⟨-, -, hclosing⟩ := h.closing rfl
      rcases hclosing with hs | hs | hs <;> simp [hs] at hstate

theorem Sends.networkTcpShutdown (h : Sends start text fin e) (timer : Bool) (sending : Sending)
    (polls : List Poll) :
    ∃ fin', Sends start text fin' (Tcp.networkTcpShutdown e timer sending polls).2 := by
  simp only [Tcp.networkTcpShutdown]
  by_cases herror : e.connection.error ≠ .ok
  · exact ⟨fin, by rw [if_pos herror]; exact h⟩
  rw [if_neg herror]
  by_cases hover : e.connection.state = .closed ∨ e.connection.state = .reset
  · exact ⟨fin, by rw [if_pos hover]; exact h⟩
  rw [if_neg hover]
  by_cases hstate : e.connection.state ≠ .established ∧ e.connection.state ≠ .closeWait
  · exact ⟨fin, by rw [if_pos hstate]; exact h⟩
  rw [if_neg hstate]
  by_cases htimer : (!timer)
  · exact ⟨fin, by rw [if_pos htimer]; exact h⟩
  obtain rfl : fin = false := by
    by_contra hfin
    obtain ⟨-, -, hclosing⟩ := h.closing (by simpa using hfin)
    rcases hclosing with hs | hs | hs <;> simp [hs] at hstate hover
  obtain ⟨fin', h'⟩ := (h.shut).emitFin (by simp [outstanding]) rfl (.inl rfl) sending
  refine ⟨fin', ?_⟩
  generalize tcpEmit _ _ _ _ _ _ _ _ _ = sent at h' ⊢
  have hclosed := (Sends.turns _ _ _ polls).awaitClose (fun _ h =>
    h.passive (Passive.edit rfl rfl rfl rfl fun _ _ => .inr (.inl rfl))) h'
  split_ifs
  all_goals first | exact hclosed | exact h'

/-- How much data a call hands over. -/
def Call.written : Call → ℕ
  | .write bytes _ _ => bytes.length
  | .shutdown _ _ _ => 0
  | .service _ => 0

theorem Sends.step (h : Sends start text fin e) (call : Call) :
    ∃ text' fin', text'.length ≤ text.length + call.written ∧
      Sends start text' fin' (Tcp.step e call) := by
  cases call with
  | write bytes timer rounds =>
    obtain ⟨text', hlength, h'⟩ := h.networkTcpWrite bytes timer rounds
    exact ⟨text', fin, hlength, h'⟩
  | shutdown timer sending polls =>
    obtain ⟨fin', h'⟩ := h.networkTcpShutdown timer sending polls
    exact ⟨text, fin', le_rfl, h'⟩
  | service arrivals => exact ⟨text, fin, le_rfl, h.service arrivals⟩

theorem Sends.run (h : Sends start text fin e) (calls : List Call) :
    ∃ text' fin', text'.length ≤ text.length + (calls.map Call.written).sum ∧
      Sends start text' fin' (Tcp.run e calls) := by
  induction calls generalizing text fin e with
  | nil => exact ⟨text, fin, le_rfl, h⟩
  | cons call calls ih =>
    obtain ⟨text₁, fin₁, hlength₁, h₁⟩ := h.step call
    obtain ⟨text', fin', hlength', h'⟩ := ih h₁
    refine ⟨text', fin', ?_, h'⟩
    rw [map_cons, sum_cons]
    omega

theorem Placed.agree {m m' : Emission} {i i' : ℕ} (h : Placed start text m i)
    (h' : Placed start text m' i') (hshort : text.length ≤ 2 ^ 32) {k k' : ℕ} {x y : UInt8}
    (hx : m.payload[k]? = some x) (hy : m'.payload[k']? = some y)
    (hnumber : m.numberOf k = m'.numberOf k') : x = y := by
  have hx' := h.bytes k x hx
  have hy' := h'.bytes k' y hy
  obtain ⟨hlt, -⟩ := List.getElem?_eq_some_iff.mp hx'
  obtain ⟨hlt', -⟩ := List.getElem?_eq_some_iff.mp hy'
  rw [Emission.numberOf, Emission.numberOf, h.sequence, h'.sequence, UInt32.add_assoc,
    UInt32.add_assoc, UInt32.add_right_inj, ← UInt32.ofNat_add, ← UInt32.ofNat_add,
    ← UInt32.toNat_inj, UInt32.toNat_ofNat', UInt32.toNat_ofNat',
    Nat.mod_eq_of_lt (hlt.trans_le hshort), Nat.mod_eq_of_lt (hlt'.trans_le hshort)] at hnumber
  rw [hnumber, hy'] at hx'
  exact (Option.some.inj hx').symm

theorem Placed.behind {m : Emission} {i : ℕ} (h : Placed start text m i) {k : ℕ}
    (hk : k < m.payload.length) : sequenceBefore (m.numberOf k) m.sendNext := by
  have hsmall := h.small
  rw [transmitCapacity] at hsmall
  simp only [sequenceBefore, Emission.numberOf, h.sequence, h.sendNext, decide_eq_true_eq,
    UInt32.toNat_sub, UInt32.toNat_add, UInt32.toNat_ofNat']
  omega

/-- A retransmission with no byte behind `send_next` finds nothing acknowledged. -/
theorem whole_of_behind {m : Emission} (hedge : m.sequence = m.unacknowledged)
    (hsmall : m.payload.length ≤ transmitCapacity)
    (hwindow : (m.sendNext - m.unacknowledged).toNat ≤ m.payload.length)
    (hbehind : ∀ i < m.payload.length, sequenceBefore (m.numberOf i) m.sendNext) :
    Whole m := by
  intro _ hne
  have hpos : 0 < m.payload.length := length_pos_of_ne_nil hne
  have hlast := hbehind (m.payload.length - 1) (by omega)
  rw [transmitCapacity] at hsmall
  simp only [sequenceBefore, Emission.numberOf, hedge, decide_eq_true_eq, UInt32.toNat_sub,
    UInt32.toNat_add, UInt32.toNat_ofNat'] at hlast hwindow ⊢
  have := m.sendNext.toNat_lt
  have := m.unacknowledged.toNat_lt
  omega

/-- A connection that reached `ESTABLISHED`: everything it sent is acknowledged and it
keeps no data. The segment that finishes a passive open may end the stream of the
peer as well. -/
structure Opened (c : Connection) : Prop where
  state : c.state = .established ∨ c.state = .closeWait
  acknowledged : c.sendUnacknowledged = c.sendNext
  kept : c.retransmit = []

theorem Opened.sends {c : Connection} (h : Opened c) : Sends c.sendNext [] false ⟨c, []⟩ where
  next := (UInt32.add_zero _).symm
  kept := ⟨[], by simp [h.kept]⟩
  small := by simp [h.kept]
  window := by simp [outstanding, h.acknowledged]
  closing := nofun
  edges := by simp
  placed := by simp

/-- A run sends one consistent stream exactly if no retransmission finds a part of
its segment acknowledged. -/
theorem consistent_run_iff (c : Connection) (calls : List Call) (hopen : Opened c)
    (hshort : (calls.map Call.written).sum ≤ 2 ^ 32) :
    Consistent (run ⟨c, []⟩ calls).emitted ↔ ∀ m ∈ (run ⟨c, []⟩ calls).emitted, Whole m := by
  obtain ⟨text, fin, hlength, h⟩ := hopen.sends.run calls
  have htext : text.length ≤ 2 ^ 32 := hlength.trans (by simpa using hshort)
  constructor
  · intro hconsistent m hm hre hne
    obtain ⟨hedge, hsmall, hwindow⟩ := h.edges m hm hre hne
    exact whole_of_behind hedge hsmall hwindow (hconsistent.behind m hm) hre hne
  · intro hwhole
    have hplaced : ∀ m ∈ (Tcp.run ⟨c, []⟩ calls).emitted, m.payload ≠ [] →
        ∃ i, Placed c.sendNext text m i := h.placed hwhole
    refine ⟨fun m hm m' hm' k k' x y hx hy => ?_, fun m hm k hk => ?_⟩
    · obtain ⟨i, hi⟩ := hplaced m hm (by rintro hnil; simp [hnil] at hx)
      obtain ⟨i', hi'⟩ := hplaced m' hm' (by rintro hnil; simp [hnil] at hy)
      exact hi.agree hi' htext hx hy
    · obtain ⟨i, hi⟩ := hplaced m hm (by rintro hnil; simp [hnil] at hk)
      exact hi.behind hk

end Sends

def freshConnection : Connection where
  state := .established
  receive := []
  retransmit := []
  sendUnacknowledged := 100
  sendNext := 100
  receiveNext := 500
  peerWindow := 8192
  peerMss := 1460
  retransmitFlags := 0
  retransmitCount := 0
  error := .ok
  cancelled := false
  peerClosed := false
  finSent := false

/-- A write of two bytes that are sent again once and then acknowledged; before the
retransmission the segment `early` arrives. -/
def twoBytes (early : List Arrival) : List Call :=
  let all : Segment :=
    { sequence := 500, acknowledgment := 102, flags := flagAck, window := 8192, payload := [] }
  [.write [1, 2] true [(⟨[], .ok⟩,
    [⟨early, true, ⟨[], .ok⟩, true⟩, ⟨[.segment all .ok], false, ⟨[], .ok⟩, true⟩])]]

theorem consistent_twoBytes :
    Opened freshConnection ∧ Consistent (run ⟨freshConnection, []⟩ (twoBytes [])).emitted :=
  have hopen : Opened freshConnection := ⟨.inl rfl, rfl, rfl⟩
  ⟨hopen, (consistent_run_iff freshConnection (twoBytes []) hopen (by decide)).mpr (by decide)⟩

/-- The acknowledgement of the first of two bytes. The retransmission that follows
puts the first byte where the second one was, and the second behind `send_next`. -/
def firstByte : Segment where
  sequence := 500
  acknowledgment := 101
  flags := flagAck
  window := 8192
  payload := []

theorem not_consistent_partial_acknowledgment :
    Opened freshConnection ∧
      ¬ Consistent (run ⟨freshConnection, []⟩ (twoBytes [.segment firstByte .ok])).emitted := by
  refine ⟨⟨.inl rfl, rfl, rfl⟩, fun h => ?_⟩
  have hbehind := h.behind _ mem_cons_self 1 (by decide)
  exact absurd hbehind (by decide)

end OpenRFS.Tcp
