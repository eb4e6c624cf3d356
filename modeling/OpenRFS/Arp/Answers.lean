import OpenRFS.Arp.Cache

/-!
# Answers belong to the address asked for

Every valid entry was filled by an accepted packet from its address (`Recorded`),
whatever happens to the cache. An answer out of an entry that was just looked up is
therefore right. A caller that waits holds on to its entry, and the entry may be
given away: a pending entry has expiry zero, so it is the first to go when the cache
is full. As long as no send in the service loop takes the entry for another address,
the answer is right as well.
-/

namespace OpenRFS.Arp

open Function Bool Runtime

/-- Every answer follows the acceptance of a packet that says the same. -/
def Truthful : List Happening → Prop
  | [] => True
  | .accepted _ :: log => Truthful log
  | .answered b :: log => .accepted b ∈ log ∧ Truthful log

instance decidableTruthful : DecidablePred Truthful
  | [] => .isTrue trivial
  | .accepted _ :: log => decidableTruthful log
  | .answered b :: log =>
    let _ := decidableTruthful log
    inferInstanceAs (Decidable (.accepted b ∈ log ∧ Truthful log))

/-- Every valid entry is what an accepted packet said. -/
def Recorded (s : Runtime) : Prop :=
  ∀ k, (s.entries k).state = .valid → .accepted (s.entries k).binding ∈ s.log

structure Sound (s : Runtime) : Prop where
  truthful : Truthful s.log
  recorded : Recorded s

def allocates (now timeout : UInt64) (address : UInt32) (s : Runtime) : Option Slot :=
  if address = broadcastAddress then none
  else if !s.configured || !ipv4IsUnicast address || !deadlineValid timeout then none
  else
    match arpFind now address s with
    | (some _, _) => none
    | (none, s) => some (arpSlot address s).1

/-- The event does not take the entry `k` for another address than `a`. -/
def Event.spares (k : Slot) (a : UInt32) (s : Runtime) : Event → Bool
  | .send now timeout address => address == a || allocates now timeout address s != some k
  | _ => true

def eventsSpare (k : Slot) (a : UInt32) (s : Runtime) : List Event → Bool
  | [] => true
  | event :: events => event.spares k a s && eventsSpare k a (handle s event) events

def Pump.spares (k : Slot) (a : UInt32) (s : Runtime) : Pump → Bool
  | .frames device events => eventsSpare k a (s.readDevice device) events
  | _ => true

def turnsSpare (k : Slot) (a : UInt32) (s : Runtime) : List Turn → Bool
  | [] => true
  | turn :: turns =>
    turn.pump.spares k a s &&
      (let s := networkService s turn.pump
       (s.entries k).state == .valid || !turn.wakes || turnsSpare k a s turns)

def attemptsSpare (k : Slot) (a : UInt32) (s : Runtime) : List Attempt → Bool
  | [] => true
  | attempt :: attempts =>
    if !attempt.requested then attemptsSpare k a s attempts
    else
      turnsSpare k a s attempt.turns &&
        match awaitTurns a k s attempt.turns with
        | (some _, _) => true
        | (none, s) => attemptsSpare k a s attempts

/-- While a caller waits, its entry is not taken for another address. -/
def Call.spares (s : Runtime) : Call → Bool
  | .resolve now timeout address timer attempts =>
    match arpLookup now timeout address s with
    | (.inl _, _) => true
    | (.inr k, s) => !timer || attemptsSpare k address s (attempts.take retryCount)
  | _ => true

def callsSpare (s : Runtime) : List Call → Bool
  | [] => true
  | call :: calls => call.spares s && callsSpare (step s call) calls

variable {now timeout : UInt64} {address : UInt32} {s' : Runtime}

section Sound

variable {s : Runtime}

theorem arpFind_eq_some {k : Slot} (h : arpFind now address s = (some k, s')) :
    s' = arpAge now s ∧ (s'.entries k).state ≠ .empty ∧ (s'.entries k).address = address ∧
      s'.current (s'.entries k) := by
  obtain ⟨hfind, rfl⟩ := Prod.mk.inj h
  have hholds := List.find?_some hfind
  simp only [holds, and_eq_true, bne_iff_ne, beq_iff_eq] at hholds
  exact ⟨rfl, hholds.1.1, hholds.1.2, hholds.2⟩

theorem Runtime.binding_of_current {e : Entry} (h : s.current e) :
    e.binding = s.bind e.address e.mac := by
  simp only [current, and_eq_true, beq_iff_eq] at h
  simp only [Entry.binding, bind, h]

variable (h : Sound s)
include h

theorem Sound.weaken (hlog : s'.log = s.log)
    (hentries : ∀ k, (s'.entries k).state = .valid → s'.entries k = s.entries k) : Sound s' := by
  refine ⟨hlog ▸ h.truthful, fun k hvalid => ?_⟩
  rw [hlog, hentries k hvalid]
  exact h.recorded k (hentries k hvalid ▸ hvalid)

theorem Sound.setEntry (k : Slot) (e : Entry)
    (he : e.state = .valid → .accepted e.binding ∈ s.log) : Sound (s.setEntry k e) := by
  refine ⟨h.truthful, fun j hvalid => ?_⟩
  rcases eq_or_ne j k with rfl | hne
  · simp only [Runtime.setEntry, update_self] at hvalid ⊢
    exact he hvalid
  · simp only [Runtime.setEntry, update_of_ne hne] at hvalid ⊢
    exact h.recorded j hvalid

theorem Sound.setState (k : Slot) {state : EntryState} (hstate : state ≠ .valid) :
    Sound (s.setState k state) :=
  h.setEntry k _ fun hvalid => absurd hvalid hstate

theorem Sound.accepted (b : Binding) : Sound (s.note (.accepted b)) :=
  ⟨h.truthful, fun k hvalid => List.mem_cons_of_mem _ (h.recorded k hvalid)⟩

theorem Sound.answered {b : Binding} (hb : .accepted b ∈ s.log) : Sound (s.note (.answered b)) :=
  ⟨⟨hb, h.truthful⟩, fun k hvalid => List.mem_cons_of_mem _ (h.recorded k hvalid)⟩

theorem Sound.invalidate (hlog : s'.log = s.log) : Sound (arpInvalidate s') :=
  h.weaken hlog fun _ hvalid => by cases hvalid

theorem Sound.age (now : UInt64) : Sound (arpAge now s) := by
  refine h.weaken rfl fun k hvalid => ?_
  simp only [arpAge] at hvalid ⊢
  split_ifs at hvalid ⊢
  · cases hvalid
  · rfl

theorem Sound.slot (address : UInt32) : Sound (arpSlot address s).2 :=
  h.setEntry _ _ fun hvalid => by cases hvalid

theorem Sound.lookup (now timeout : UInt64) (address : UInt32) :
    Sound (arpLookup now timeout address s).2 := by
  rw [arpLookup]
  split_ifs
  · exact h
  · exact h
  · split
    · rename_i k s' hfind
      obtain ⟨rfl, -, haddress, hcurrent⟩ := arpFind_eq_some hfind
      split_ifs with hvalid
      · refine (h.age now).answered ?_
        rw [← haddress, ← binding_of_current hcurrent]
        exact (h.age now).recorded k hvalid
      · exact (h.age now).setState k (by decide)
    · rename_i s' hfind
      obtain ⟨-, rfl⟩ := Prod.mk.inj hfind
      exact ((h.age now).slot address).setState _ (by decide)

theorem Sound.defer (now timeout : UInt64) (address : UInt32) :
    Sound (arpDefer now timeout address s).2 := by
  have hlookup := h.lookup now timeout address
  rw [arpDefer]
  split <;> rename_i heq <;> rw [heq] at hlookup <;> exact hlookup

theorem Sound.accept (clock : Readings) (p : Packet) : Sound (arpAccept clock p s) := by
  have hnoted := h.accepted (s.bind p.senderAddress p.senderMac)
  rw [arpAccept]
  split
  · rename_i s' hfind
    obtain ⟨-, rfl⟩ := Prod.mk.inj hfind
    exact hnoted.age clock.found
  · rename_i k s' hfind
    obtain ⟨rfl, -, haddress, hcurrent⟩ := arpFind_eq_some hfind
    split_ifs
    · refine Sound.age (Sound.setEntry (hnoted.age clock.found) k _ fun _ => ?_) clock.aged
      simp only [current, and_eq_true, beq_iff_eq] at hcurrent
      simp only [Entry.binding, haddress, hcurrent]
      exact List.mem_cons_self
    · exact hnoted.age clock.found

theorem Sound.receivePacket (clock : Readings) (source : Mac) (bytes : Bytes) :
    Sound (arpReceivePacket clock source bytes s) := by
  rw [arpReceivePacket]
  split
  · exact h
  · split_ifs
    · exact h.accept clock _
    · exact h

theorem Sound.handle (event : Event) : Sound (handle s event) := by
  cases event with
  | packet clock source bytes => exact h.receivePacket clock source bytes
  | send now timeout address => exact h.defer now timeout address
  | applyLease address => exact h.invalidate rfl
  | discardLease => exact h.invalidate rfl

theorem Sound.events (events : List Event) : Sound (events.foldl Arp.handle s) := by
  induction events generalizing s with
  | nil => exact h
  | cons event events ih => exact ih (h.handle event)

theorem Sound.service (pump : Pump) : Sound (networkService s pump) := by
  cases pump with
  | reset device => exact h.invalidate rfl
  | failed => exact h
  | frames device events =>
    exact Sound.events (s := s.readDevice device) ⟨h.truthful, h.recorded⟩ events

end Sound

/-- The entry `k` of a caller that waits for `a`: it is for `a` unless it is empty,
and if it is valid then under the current generations. -/
def Serves (k : Slot) (a : UInt32) (s : Runtime) : Prop :=
  (s.entries k).state ≠ .empty →
    (s.entries k).address = a ∧ ((s.entries k).state = .valid → s.current (s.entries k) = true)

section Serves

variable {s : Runtime} {k : Slot} {a : UInt32}

theorem serves_of_empty (h : (s.entries k).state = .empty) : Serves k a s :=
  fun hne => absurd h hne

variable (h : Serves k a s)
include h

theorem Serves.age (now : UInt64) : Serves k a (arpAge now s) := by
  by_cases hout : s.outdated now (s.entries k)
  · exact serves_of_empty (by simp [arpAge, hout, Entry.zero])
  · have hsame : (arpAge now s).entries k = s.entries k := by simp [arpAge, hout]
    unfold Serves
    rw [hsame]
    exact h

theorem Serves.setEntry {j : Slot} {e : Entry}
    (he : j = k → e.address = a ∧ (e.state = .valid → s.current e)) :
    Serves k a (s.setEntry j e) := by
  rcases eq_or_ne k j with rfl | hne
  · intro _
    rw [show (s.setEntry k e).entries k = e from update_self _ _ _]
    exact he rfl
  · unfold Serves
    rw [show (s.setEntry j e).entries k = s.entries k from update_of_ne hne _ _]
    exact h

theorem Serves.setPending {j : Slot}
    (hj : j = k → (s.entries j).address = a) : Serves k a (s.setState j .pending) :=
  h.setEntry fun hjk => ⟨hj hjk, fun hvalid => by cases hvalid⟩

variable (hspares : address = a ∨ allocates now timeout address s ≠ some k)
include hspares

/-- `arp_resolve` in the service loop, if it does not take the entry away. -/
theorem Serves.lookup :
    Serves k a (arpLookup now timeout address s).2 := by
  rw [arpLookup]
  rw [allocates] at hspares
  split_ifs with hbroadcast hrefused
  · exact h
  · exact h
  · rw [if_neg hbroadcast, if_neg hrefused] at hspares
    split
    · rename_i j s' hfind
      obtain ⟨rfl, hne, -, -⟩ := arpFind_eq_some hfind
      split_ifs
      · exact h.age now
      · refine (h.age now).setPending fun hjk => ?_
        subst hjk
        exact (h.age now hne).1
    · rename_i s' hfind
      rw [hfind] at hspares
      obtain ⟨-, rfl⟩ := Prod.mk.inj hfind
      have htaken : (arpSlot address (arpAge now s)).1 = k → address = a := fun hk =>
        hspares.resolve_right fun hne => hne (congrArg some hk)
      refine Serves.setPending ((h.age now).setEntry fun hk => ⟨htaken hk, fun hvalid => ?_⟩)
        fun hk => ?_
      · cases hvalid
      · simpa only [arpSlot, Runtime.setEntry, update_self] using htaken hk

theorem Serves.defer :
    Serves k a (arpDefer now timeout address s).2 := by
  have hlookup := h.lookup hspares
  rw [arpDefer]
  split <;> rename_i heq <;> rw [heq] at hlookup <;> exact hlookup

omit hspares

theorem Serves.accept (clock : Readings) (p : Packet) : Serves k a (arpAccept clock p s) := by
  have hnoted : Serves k a (s.note (.accepted (s.bind p.senderAddress p.senderMac))) := h
  rw [arpAccept]
  split
  · rename_i s' hfind
    obtain ⟨-, rfl⟩ := Prod.mk.inj hfind
    exact hnoted.age clock.found
  · rename_i j s' hfind
    obtain ⟨rfl, hne, -, hcurrent⟩ := arpFind_eq_some hfind
    split_ifs
    · refine ((hnoted.age clock.found).setEntry fun hjk => ?_).age clock.aged
      subst hjk
      exact ⟨(hnoted.age clock.found hne).1, fun _ => hcurrent⟩
    · exact hnoted.age clock.found

theorem Serves.receivePacket (clock : Readings) (source : Mac)
    (bytes : Bytes) : Serves k a (arpReceivePacket clock source bytes s) := by
  rw [arpReceivePacket]
  split
  · exact h
  · split_ifs
    · exact h.accept clock _
    · exact h

theorem Serves.handle {event : Event} (hspares : event.spares k a s) :
    Serves k a (Arp.handle s event) := by
  cases event with
  | packet clock source bytes => exact h.receivePacket clock source bytes
  | send now timeout address =>
    exact h.defer (by simpa [Event.spares] using hspares)
  | applyLease address => exact serves_of_empty rfl
  | discardLease => exact serves_of_empty rfl

theorem Serves.events {events : List Event}
    (hspare : eventsSpare k a s events) : Serves k a (events.foldl Arp.handle s) := by
  induction events generalizing s with
  | nil => exact h
  | cons event events ih =>
    simp only [eventsSpare, and_eq_true] at hspare
    exact ih (h.handle hspare.1) hspare.2

/-- The service loop starts with an entry that is not valid yet, so that reading the
device cannot make it outdated. -/
theorem Serves.service (hvalid : (s.entries k).state ≠ .valid) {pump : Pump}
    (hspares : pump.spares k a s) : Serves k a (networkService s pump) := by
  cases pump with
  | reset device => exact serves_of_empty rfl
  | failed => exact h
  | frames device events =>
    have hread : Serves k a (s.readDevice device) := fun hne =>
      ⟨(h hne).1, fun hv => absurd hv hvalid⟩
    exact hread.events hspares

end Serves

section Waiting

variable {s : Runtime} {k : Slot} {a : UInt32}

theorem Sound.answer (h : Sound s) (hserves : Serves k a s)
    (hvalid : (s.entries k).state = .valid) :
    Sound (s.note (.answered (s.bind a (s.entries k).mac))) := by
  obtain ⟨haddress, hcurrent⟩ := hserves (by simp [hvalid])
  refine h.answered ?_
  rw [← haddress, ← binding_of_current (hcurrent hvalid)]
  exact h.recorded k hvalid

/-- One attempt: the cache stays sound, and if there is no result yet then the entry
goes on serving the caller. -/
theorem Sound.awaitTurns (h : Sound s) (hserves : Serves k a s)
    (hvalid : (s.entries k).state ≠ .valid) {turns : List Turn}
    (hspare : turnsSpare k a s turns) :
    Sound (awaitTurns a k s turns).2 ∧
      ((Arp.awaitTurns a k s turns).1 = none → Serves k a (Arp.awaitTurns a k s turns).2 ∧
        ((Arp.awaitTurns a k s turns).2.entries k).state ≠ .valid) := by
  induction turns generalizing s with
  | nil => exact ⟨h, fun _ => ⟨hserves, hvalid⟩⟩
  | cons turn turns ih =>
    simp only [turnsSpare, and_eq_true, or_eq_true, beq_iff_eq] at hspare
    have hsound := h.service turn.pump
    have hserved := hserves.service hvalid hspare.1
    simp only [Arp.awaitTurns]
    split_ifs with hdone hwakes
    · exact ⟨hsound.answer hserved hdone, nofun⟩
    · exact ⟨hsound.setState k (by decide), nofun⟩
    · exact ih hsound hserved hdone ((hspare.2.resolve_left (by simp [hdone, hwakes])))

theorem Sound.awaitAttempts (h : Sound s) (hserves : Serves k a s)
    (hvalid : (s.entries k).state ≠ .valid) {attempts : List Attempt}
    (hspare : attemptsSpare k a s attempts) : Sound (awaitAttempts a k s attempts).2 := by
  induction attempts generalizing s with
  | nil => exact h.setState k (by decide)
  | cons attempt attempts ih =>
    rw [Arp.awaitAttempts]
    rw [attemptsSpare] at hspare
    split_ifs at hspare ⊢ with hrequested
    · exact ih h hserves hvalid hspare
    · simp only [and_eq_true] at hspare
      obtain ⟨hsound, hgoesOn⟩ := h.awaitTurns hserves hvalid hspare.1
      split
      · rename_i result s' heq
        rw [heq] at hsound
        exact hsound
      · rename_i s' heq
        rw [heq] at hsound hgoesOn hspare
        obtain ⟨hserves', hvalid'⟩ := hgoesOn rfl
        exact ih hsound hserves' hvalid' hspare.2

/-- A caller that has to wait starts with a pending entry for its address. -/
theorem arpLookup_eq_inr (h : arpLookup now timeout address s = (.inr k, s')) :
    (s'.entries k).state = .pending ∧ (s'.entries k).address = address := by
  rw [arpLookup] at h
  split_ifs at h
  · cases h
  · cases h
  · split at h
    · rename_i j t hfind
      obtain ⟨-, -, haddress, -⟩ := arpFind_eq_some hfind
      split_ifs at h
      · cases h
      · obtain ⟨hj, rfl⟩ := Prod.mk.inj h
        cases hj
        simpa [setState, Runtime.setEntry] using haddress
    · obtain ⟨hj, rfl⟩ := Prod.mk.inj h
      cases hj
      simp [setState, Runtime.setEntry]

theorem Sound.step (h : Sound s) {call : Call} (hspares : call.spares s) :
    Sound (Arp.step s call) := by
  cases call with
  | service pump => exact h.service pump
  | configure address => exact h.invalidate rfl
  | reset device => exact h.invalidate rfl
  | resolve now timeout address timer attempts =>
    have hlookup := h.lookup now timeout address
    simp only [Arp.step, arpResolve]
    simp only [Call.spares] at hspares
    split
    · rename_i answer s' heq
      rw [heq] at hlookup
      exact hlookup
    · rename_i k s' heq
      rw [heq] at hlookup hspares
      obtain ⟨hpending, haddress⟩ := arpLookup_eq_inr heq
      split_ifs with htimer
      · exact hlookup
      · refine Sound.awaitAttempts hlookup (fun _ => ⟨haddress, ?_⟩) ?_ ?_
        · simp [hpending]
        · simp [hpending]
        · simpa [htimer] using hspares

theorem Sound.run (h : Sound s) {calls : List Call} (hspare : callsSpare s calls) :
    Sound (Arp.run s calls) := by
  induction calls generalizing s with
  | nil => exact h
  | cons call calls ih =>
    simp only [callsSpare, and_eq_true] at hspare
    exact ih (h.step hspare.1) hspare.2

end Waiting

theorem sound_start (generation : UInt64) (device : Device) : Sound (start generation device) :=
  ⟨trivial, fun _ hvalid => by cases hvalid⟩

/-- In every run in which no send of the service loop takes the entry of a waiting
caller for another address, all answers belong to the address asked for. -/
theorem run_truthful (generation : UInt64) (device : Device) (calls : List Call)
    (hspare : callsSpare (start generation device) calls = true) :
    Truthful (run (start generation device) calls).log :=
  ((sound_start generation device).run hspare).truthful

/-- The bytes of a packet, as `arp_request` and the reply of `arp_receive_packet`
write them. -/
def Packet.bytes (p : Packet) : Bytes :=
  [0, 1, 0x08, 0, 6, 4, 0, UInt8.ofNat p.operation] ++ p.senderMac ++ address p.senderAddress ++
    p.targetMac ++ address p.targetAddress
where
  address (a : UInt32) : Bytes :=
    [(a >>> 24).toUInt8, (a >>> 16).toUInt8, (a >>> 8).toUInt8, a.toUInt8]

abbrev host : Device := ⟨[2, 0, 0, 0, 0, 1], 1⟩

abbrev hostAddress : UInt32 := 0x0A000001

abbrev neighbour (n : UInt8) : UInt32 := 0x0A000100 + n.toUInt32

abbrev replyFrom (n : UInt8) : Event :=
  .packet ⟨5, 5, 5⟩ [2, 0, 0, 0, 1, n]
    (Packet.bytes ⟨operationReply, [2, 0, 0, 0, 1, n], neighbour n, host.mac, hostAddress⟩)

/-- The host waits for a neighbour, and this is what its first turn brings. -/
abbrev askFor (n : UInt8) (events : List Event) : Call :=
  .resolve 4 1000000000 (neighbour n) true [⟨true, [⟨.frames host events, true⟩]⟩]

/-- A segment of an unknown neighbour is refused during the wait; the cache has room. -/
abbrev roomyCalls : List Call :=
  [.configure hostAddress, askFor 1 [.send 5 1000000000 (neighbour 9), replyFrom 9, replyFrom 1]]

theorem run_truthful_roomy :
    callsSpare (start 1 host) roomyCalls = true ∧
      .answered ⟨neighbour 1, [2, 0, 0, 0, 1, 1], 2, 1⟩ ∈ (run (start 1 host) roomyCalls).log ∧
      Truthful (run (start 1 host) roomyCalls).log :=
  ⟨by decide +kernel, by decide +kernel, run_truthful 1 host roomyCalls (by decide +kernel)⟩

/-- The same with seven neighbours known already: the refusal takes the entry of the
caller that waits for the eighth. -/
abbrev crowdedCalls : List Call :=
  [.configure hostAddress, askFor 1 [replyFrom 1], askFor 2 [replyFrom 2], askFor 3 [replyFrom 3],
    askFor 4 [replyFrom 4], askFor 5 [replyFrom 5], askFor 6 [replyFrom 6],
    askFor 7 [replyFrom 7], askFor 8 [.send 5 1000000000 (neighbour 9), replyFrom 9]]

theorem crowded_misanswer :
    .answered ⟨neighbour 8, [2, 0, 0, 0, 1, 9], 2, 1⟩ ∈ (run (start 1 host) crowdedCalls).log ∧
      ¬ Truthful (run (start 1 host) crowdedCalls).log :=
  ⟨by decide +kernel, by decide +kernel⟩

end OpenRFS.Arp
