import OpenRFS.NativeWait.Poll
import OpenRFS.Codec.Checked

/-!
# Which readiness a wait reports

`networkPoll` leaves the results at the places of the requests, and a count of those
that show anything. `pollWaitItems` takes up as many results as the count says, from
the first one on. So a socket that is ready is reported exactly if its place is below
the count.
-/

namespace OpenRFS.NativeWait

open Codec NativeHandle Tcp List Prod

section Pairs

variable {α β : Type} {R : α → β → Prop} {l : List α} {l' : List β} {k : ℕ} {a : α} {b : β}

theorem forall₂_getElem?_right (h : List.Forall₂ R l l') (hb : l'[k]? = some b) :
    ∃ a, l[k]? = some a ∧ R a b := by
  obtain ⟨hlt, rfl⟩ := List.getElem?_eq_some_iff.mp hb
  have hlt' : k < l.length := h.length_eq ▸ hlt
  exact ⟨l[k], getElem?_eq_getElem hlt', h.get hlt' hlt⟩

theorem map_fst_zip_sublist (l : List α) (l' : List β) : ((l.zip l').map fst).Sublist l := by
  induction l generalizing l' with
  | nil => exact .slnil
  | cons a l ih =>
    rcases l' with - | ⟨b, l'⟩
    · exact nil_sublist _
    · exact (ih l').cons_cons a

end Pairs

section Flags

theorem and_or_distrib (a b m : UInt32) : (a ||| b) &&& m = (a &&& m) ||| (b &&& m) := by
  apply UInt32.toBitVec_inj.mp
  ext i
  simp [Bool.and_or_distrib_right]

@[simp] theorem has_or (a b m : UInt32) : has (a ||| b) m = (has a m || has b m) := by
  simp only [has, and_or_distrib, ne_eq, UInt32.or_eq_zero_iff, not_and_or, Bool.decide_or]

@[simp] theorem has_flag (c : Bool) (b m : UInt32) : has (flag c b) m = (c && has b m) := by
  cases c <;> simp [has, flag]

theorem has_of_has_and {a b m : UInt32} (h : has (a &&& b) m) : has b m := by
  simp only [has, decide_eq_true_eq] at h ⊢
  intro hzero
  rw [UInt32.and_assoc, hzero] at h
  simp at h

end Flags

section NetworkPoll

variable {requests : List PollRequest} {round : Round} {more : List Round}

/-- A result that shows more than was always reported was asked for. -/
def Asked (request : PollRequest) (result : PollResult) : Prop :=
  (has result.ready readyReadable = true → has request.interests readyReadable = true) ∧
    (has result.ready readyWritable = true → has request.interests readyWritable = true)

/-- The results stand at the places of their requests, and the count is that of the
results that show anything. -/
structure Answers (requests : List PollRequest) (polled : Polled) : Prop where
  asked : List.Forall₂ Asked requests polled.results
  count : polled.count = readyCount polled.results

theorem asked_pollOne (sockets : UInt64 → Socket) (request : PollRequest) :
    Asked request (pollOne sockets request) := by
  constructor
  all_goals
    intro h
    have hmask := has_of_has_and h
    rw [has_or, Bool.or_eq_true] at hmask
    exact hmask.resolve_right (by decide)

theorem forall₂_map_pollOne (sockets : UInt64 → Socket) (requests : List PollRequest) :
    List.Forall₂ Asked requests (requests.map (pollOne sockets)) := by
  rw [forall₂_map_right_iff, forall₂_same]
  exact fun request _ => asked_pollOne sockets request

theorem answers_timedOut {results : List PollResult} (h : List.Forall₂ Asked requests results) :
    Answers requests (timedOut results) := by
  constructor
  · simp only [timedOut]
    rw [forall₂_map_right_iff]
    refine h.imp fun request result hasked => ⟨fun hready => hasked.1 ?_, fun hready => hasked.2 ?_⟩
    all_goals
      rw [has_or, Bool.or_eq_true] at hready
      exact hready.resolve_right (by decide)
  · simp only [timedOut, readyCount, countP_map]
    refine (countP_eq_length.mpr fun result _ => ?_).symm
    have hbit : ¬ readyTimeout = 0 := by decide
    simp [UInt32.or_eq_zero_iff, hbit]

theorem answers_pollRound {rest : List PollResult → Polled}
    (hrest : ∀ results, List.Forall₂ Asked requests results →
      (rest results).status ≠ .noResources → Answers requests (rest results))
    (hstatus : (pollRound requests round rest).status ≠ .noResources) :
    Answers requests (pollRound requests round rest) := by
  have hasked := forall₂_map_pollOne round.sockets requests
  simp only [pollRound] at hstatus ⊢
  split_ifs with hready hfailed hexpired
  · exact ⟨hasked, rfl⟩
  · simp [hready, hfailed] at hstatus
  · exact answers_timedOut hasked
  · rw [if_neg hready, if_neg hfailed, if_neg hexpired] at hstatus
    exact hrest _ hasked hstatus

theorem answers_pollRounds (hstatus : (pollRounds requests round more).status ≠ .noResources) :
    Answers requests (pollRounds requests round more) := by
  induction more generalizing round with
  | nil =>
    exact answers_pollRound (fun _ hasked _ => answers_timedOut hasked) hstatus
  | cons next more ih =>
    exact answers_pollRound (fun _ _ hnext => ih hnext) hstatus

theorem answers_networkPoll {acquired : Bool}
    (hstatus : (networkPoll acquired requests round more).status = .ok ∨
      (networkPoll acquired requests round more).status = .timeout) :
    Answers requests (networkPoll acquired requests round more) := by
  rw [networkPoll] at hstatus ⊢
  split_ifs at hstatus ⊢ with hlength hacquired
  · simp at hstatus
  · simp at hstatus
  · refine answers_pollRounds fun hnone => ?_
    rw [hnone] at hstatus
    simp at hstatus

end NetworkPoll

section Items

variable {scanned : List (WaitItem × Option PollRequest)}

theorem mem_networkIndices {i : ℕ} {request : PollRequest} :
    (i, request) ∈ networkIndices scanned ↔ ∃ item, scanned[i]? = some (item, some request) := by
  simp only [networkIndices, mem_filterMap, mem_zipIdx_iff_getElem?]
  constructor
  · rintro ⟨⟨⟨item, r⟩, j⟩, hj, heq⟩
    obtain ⟨r', hr', hpair⟩ := Option.map_eq_some_iff.mp heq
    obtain ⟨rfl, rfl⟩ := mk.inj hpair
    exact ⟨item, by rw [hj, ← hr']⟩
  · rintro ⟨item, hi⟩
    exact ⟨((item, some request), i), hi, rfl⟩

theorem nodup_networkIndices (scanned : List (WaitItem × Option PollRequest)) :
    ((networkIndices scanned).map fst).Nodup := by
  have hsnd : (scanned.zipIdx.map snd).Nodup := by
    rw [zipIdx_map_snd]
    exact nodup_range'
  have hpair : scanned.zipIdx.Pairwise fun a b => a.2 ≠ b.2 := pairwise_map.mp hsnd
  refine pairwise_map.mpr (pairwise_filterMap.mpr (hpair.imp fun hne p hp q hq => ?_))
  obtain ⟨-, -, rfl⟩ := Option.map_eq_some_iff.mp hp
  obtain ⟨-, -, rfl⟩ := Option.map_eq_some_iff.mp hq
  exact hne

/-- What the second loop does to the items: those that are named get their result, the
others stay, and the count follows the items that become ready. -/
theorem takeResults_spec {entries : List (ℕ × PollResult)} {items : List WaitItem} (count : ℕ)
    (hnodup : (entries.map fst).Nodup)
    (hidle : ∀ entry ∈ entries, ∃ item, items[entry.1]? = some item ∧ item.ready = 0) :
    (∀ entry ∈ entries, (takeResults entries (items, count)).1[entry.1]? =
      (items[entry.1]?).map fun item => addResult item entry.2) ∧
    (∀ i, i ∉ entries.map fst → (takeResults entries (items, count)).1[i]? = items[i]?) ∧
    (takeResults entries (items, count)).2 + readyItems items =
      count + readyItems (takeResults entries (items, count)).1 := by
  induction entries generalizing items count with
  | nil => exact ⟨nofun, fun _ _ => rfl, rfl⟩
  | cons entry entries ih =>
    obtain ⟨index, result⟩ := entry
    obtain ⟨item, hitem, hzero⟩ := hidle _ mem_cons_self
    obtain ⟨hfresh, hnodup⟩ := nodup_cons.mp hnodup
    have hlt : index < items.length := (List.getElem?_eq_some_iff.mp hitem).1
    have hget : items[index] = item := (List.getElem?_eq_some_iff.mp hitem).2
    have hother : ∀ e ∈ entries, e.1 ≠ index := fun e he heq =>
      hfresh (List.mem_map.mpr ⟨e, he, heq⟩)
    have hidle' : ∀ e ∈ entries, ∃ item', (items.set index (addResult item result))[e.1]? =
        some item' ∧ item'.ready = 0 := by
      intro e he
      rw [getElem?_set_ne (hother e he).symm]
      exact hidle e (mem_cons_of_mem _ he)
    rw [takeResults, hitem]
    dsimp only
    obtain ⟨htaken, hkept, hcount⟩ := ih
      (if (addResult item result).ready ≠ 0 then count + 1 else count) hnodup hidle'
    refine ⟨fun e he => ?_, fun i hi => ?_, ?_⟩
    · rcases mem_cons.mp he with rfl | he
      · rw [hkept index hfresh, getElem?_set_self hlt, hitem]
        rfl
      · rw [htaken e he, getElem?_set_ne (hother e he).symm]
    · rw [map_cons, mem_cons, not_or] at hi
      rw [hkept i hi.2, getElem?_set_ne (Ne.symm hi.1)]
    · have hset := countP_set (p := fun item : WaitItem => decide (item.ready ≠ 0))
        (a := addResult item result) hlt
      rw [hget] at hset
      simp only [hzero, ne_eq, not_true_eq_false, decide_false, Bool.false_eq_true, if_false,
        decide_eq_true_eq] at hset
      have hbefore : readyItems (items.set index (addResult item result)) =
          readyItems items + if (addResult item result).ready ≠ 0 then 1 else 0 := hset
      split_ifs at hcount hbefore ⊢ <;> omega

end Items

/-- What `networkPoll` computed for the streams and datagrams of a scanned list, each
with the index of its item. -/
def networkAnswers (env : Environment) (scanned : List (WaitItem × Option PollRequest)) :
    List (ℕ × PollResult) :=
  ((networkIndices scanned).map Prod.fst).zip (networkPoll env.timerAcquired
    ((networkIndices scanned).map Prod.snd) env.round env.more).results

/-- The item with the answer of the network shows what was asked for and computed. -/
def Reports (items items' : List WaitItem) (answer : ℕ × PollResult) : Prop :=
  ∀ item item', items[answer.1]? = some item → items'[answer.1]? = some item' →
    (has item.interests waitReadable = true → has answer.2.ready readyReadable = true →
      has item'.ready waitReadable = true) ∧
    (has item.interests waitWritable = true → has answer.2.ready readyWritable = true →
      has item'.ready waitWritable = true)

/-- Every stream or datagram that is readable or writable stands, among the streams
and datagrams, below the number of those that show anything. -/
def ReadyFirst (answers : List (ℕ × PollResult)) : Prop :=
  ∀ k answer, answers[k]? = some answer →
    has answer.2.ready readyReadable = true ∨ has answer.2.ready readyWritable = true →
      k < readyCount (answers.map Prod.snd)

section Wait

variable {env : Environment} {items items' : List WaitItem} {count : ℕ}
  {scanned : List (WaitItem × Option PollRequest)}

theorem scanItem_request {item found : WaitItem} {request : PollRequest}
    (h : scanItem env item = .ok (found, some request)) :
    found.ready = 0 ∧ has request.interests readyReadable = has item.interests waitReadable ∧
      has request.interests readyWritable = has item.interests waitWritable := by
  rw [scanItem] at h
  split at h
  · cases h
  · rename_i resource _
    split_ifs at h with hbad hnetwork
    · obtain ⟨rfl, hrequest⟩ := mk.inj (Except.ok.inj h)
      obtain rfl := Option.some.inj hrequest
      refine ⟨rfl, ?_, ?_⟩
      all_goals
        simp only [networkRequest, has_or, has_flag]
        simp [show has readyReadable readyWritable = false by decide,
          show has readyWritable readyReadable = false by decide,
          show has readyReadable readyReadable = true by decide,
          show has readyWritable readyWritable = true by decide]
    · split at h <;> cases h

/-- The answer is to an item that showed nothing in the scan, within its interests. -/
def Meant (items : List WaitItem) (scanned : List (WaitItem × Option PollRequest))
    (answer : ℕ × PollResult) : Prop :=
  ∃ item found, items[answer.1]? = some item ∧ (scanned.map fst)[answer.1]? = some found ∧
    found.ready = 0 ∧ (has answer.2.ready readyReadable → has item.interests waitReadable) ∧
      (has answer.2.ready readyWritable → has item.interests waitWritable)

theorem meant_of_answers {polled : Polled} (hscan : items.mapM (scanItem env) = .ok scanned)
    (hanswers : Answers ((networkIndices scanned).map snd) polled) {answer : ℕ × PollResult}
    (hmem : answer ∈ ((networkIndices scanned).map fst).zip polled.results) :
    Meant items scanned answer := by
  obtain ⟨i, result⟩ := answer
  have hforall := mapM_eq_ok_iff.mp hscan
  -- the answer stands at the place of a request of the item `i`
  obtain ⟨request, hrequest, hasked⟩ : ∃ request, (i, request) ∈ networkIndices scanned ∧
      Asked request result := by
    obtain ⟨k, hk⟩ := getElem?_of_mem hmem
    rw [getElem?_zip_eq_some] at hk
    obtain ⟨⟨j, request⟩, hj, rfl⟩ : ∃ entry, (networkIndices scanned)[k]? = some entry ∧
        entry.1 = i := by simpa using hk.1
    obtain ⟨_, hget, hasked⟩ := forall₂_getElem?_right hanswers.asked hk.2
    rw [getElem?_map, hj] at hget
    cases hget
    exact ⟨request, mem_of_getElem? hj, hasked⟩
  obtain ⟨found, hfound⟩ := mem_networkIndices.mp hrequest
  obtain ⟨item, hitem, hscanned⟩ := forall₂_getElem?_right hforall hfound
  obtain ⟨hzero, hreadable, hwritable⟩ := scanItem_request hscanned
  refine ⟨item, found, hitem, by simp [hfound], hzero, fun h => ?_, fun h => ?_⟩
  · exact hreadable ▸ hasked.1 h
  · exact hwritable ▸ hasked.2 h

theorem pollWaitItems_eq_ok (h : pollWaitItems env items = .ok (items', count))
    (hscan : items.mapM (scanItem env) = .ok scanned) :
    (∀ answer ∈ networkAnswers env scanned, Meant items scanned answer) ∧
    (items', count) = takeResults ((networkAnswers env scanned).take
      (readyCount ((networkAnswers env scanned).map snd)))
        (scanned.map fst, readyItems (scanned.map fst)) := by
  rw [pollWaitItems, hscan] at h
  simp only [bind, Except.bind] at h
  split_ifs at h with hnone hstatus
  · have hnil : networkAnswers env scanned = [] := by simp [networkAnswers, hnone]
    rw [hnil]
    exact ⟨nofun, (Except.ok.inj h).symm⟩
  · rw [networkAnswers]
    generalize hpoll : networkPoll _ _ _ _ = polled at h hstatus ⊢
    have hpolled : Answers ((networkIndices scanned).map snd) polled :=
      hpoll ▸ answers_networkPoll (by rw [hpoll]; tauto)
    have hlength := hpolled.asked.length_eq
    rw [length_map] at hlength
    refine ⟨fun answer hmem => meant_of_answers hscan hpolled hmem, ?_⟩
    rw [map_snd_zip (by simp [hlength]), ← hpolled.count]
    exact (Except.ok.inj h).symm

/-- For every list of items that resolves: the readiness of all streams and datagrams
is reported, and the count is the number of ready items, exactly if the streams and
datagrams that are readable or writable stand below the number of those that show
anything. -/
theorem wait_reports_iff (h : pollWaitItems env items = .ok (items', count))
    (hscan : items.mapM (scanItem env) = .ok scanned) :
    ((∀ answer ∈ networkAnswers env scanned, Reports items items' answer) ∧
      count = readyItems items') ↔ ReadyFirst (networkAnswers env scanned) := by
  obtain ⟨hspec, htake⟩ := pollWaitItems_eq_ok h hscan
  generalize hn : readyCount ((networkAnswers env scanned).map snd) = n at htake
  have hnodup : (((networkAnswers env scanned).take n).map fst ++
      ((networkAnswers env scanned).drop n).map fst).Nodup := by
    rw [← map_append, take_append_drop]
    exact (nodup_networkIndices scanned).sublist (map_fst_zip_sublist _ _)
  obtain ⟨htaken, hkept, hcount⟩ := takeResults_spec (readyItems (scanned.map fst))
    hnodup.of_append_left fun answer hmem => by
      obtain ⟨-, found, -, hfound, hzero, -⟩ := hspec answer (mem_of_mem_take hmem)
      exact ⟨found, hfound, hzero⟩
  rw [← htake] at htaken hkept hcount
  have hready : count = readyItems items' := by
    simp only at hcount
    omega
  constructor
  · rintro ⟨hreports, -⟩ k answer hk hbits
    by_contra hge
    -- the answer is not taken up, so its item keeps no readiness
    have hmem := mem_of_getElem? hk
    obtain ⟨item, found, hitem, hfound, hzero, hreadable, hwritable⟩ := hspec answer hmem
    have hout : answer.1 ∉ ((networkAnswers env scanned).take n).map fst := by
      have hlate : answer ∈ (networkAnswers env scanned).drop n := by
        refine mem_of_getElem? (i := k - n) ?_
        rw [getElem?_drop, Nat.add_sub_cancel' (by omega), hk]
      exact fun hin => (disjoint_of_nodup_append hnodup) hin (mem_map_of_mem hlate)
    have hitem' := (hkept answer.1 hout).trans hfound
    obtain ⟨hr, hw⟩ := hreports answer hmem item found hitem hitem'
    rw [hzero] at hr hw
    rcases hbits with hbit | hbit
    · exact absurd (hr (hreadable hbit) hbit) (by decide)
    · exact absurd (hw (hwritable hbit) hbit) (by decide)
  · intro hfirst
    refine ⟨fun answer hmem item item' hitem hitem' => ?_, hready⟩
    obtain ⟨k, hk⟩ := getElem?_of_mem hmem
    obtain ⟨-, found, -, hfound, -⟩ := hspec answer hmem
    have hshown : has answer.2.ready readyReadable = true ∨
        has answer.2.ready readyWritable = true → item' = addResult found answer.2 := by
      intro hbits
      have hlt : k < n := hn ▸ hfirst k answer hk hbits
      have hin : answer ∈ (networkAnswers env scanned).take n :=
        mem_of_getElem? ((getElem?_take_of_lt hlt).trans hk)
      have := htaken answer hin
      rw [hfound, hitem'] at this
      exact Option.some.inj this
    refine ⟨fun _ hbit => ?_, fun _ hbit => ?_⟩
    · rw [hshown (.inl hbit)]
      simp [addResult, resultReady, hbit, show has waitReadable waitReadable = true by decide]
    · rw [hshown (.inr hbit)]
      simp [addResult, resultReady, hbit, show has waitWritable waitWritable = true by decide]

end Wait

section Streams

abbrev streamTable : Table where
  slots i := if i.val < 2 then ⟨1, i, 5, true⟩ else .zero
  objects o := if o.val < 2 then ⟨⟨fun _ => UInt64.ofNat (o + 1)⟩, 1, 5, true⟩ else .zero
  limit := 2
  activeHandles := 2
  activeObjects := 2
  initialized := true

abbrev openStream (receive : Bytes) : Connection where
  state := .established
  receive := receive
  retransmit := []
  sendUnacknowledged := 0
  sendNext := 0
  receiveNext := 0
  peerWindow := 0
  peerMss := 536
  retransmitFlags := 0
  retransmitCount := 0
  error := .ok
  cancelled := false
  peerClosed := false
  finSent := false

abbrev streamEnvironment : Environment where
  handles := streamTable
  clock := 0
  window := ⟨false, 0, 0, false⟩
  audio _ := .error .absent
  timerAcquired := true
  round := ⟨fun handle => .tcp (openStream (if handle = 2 then [0] else [])) false, false, true⟩
  more := []

abbrev streamItem (i : Fin tableLimit) : WaitItem := ⟨encodeHandle i 5 1, waitReadable, 0⟩

abbrev streamRequest (handle : UInt64) : PollRequest := ⟨handle, readyReadable⟩

/-- The readable stream is the second one: it is not reported. -/
theorem second_stream_unreported :
    [streamItem 0, streamItem 1].mapM (scanItem streamEnvironment) =
      .ok [(streamItem 0, some (streamRequest 1)), (streamItem 1, some (streamRequest 2))] ∧
    pollWaitItems streamEnvironment [streamItem 0, streamItem 1] =
      .ok ([streamItem 0, streamItem 1], 0) ∧
    (1, ⟨2, readyReadable, .ok⟩) ∈ networkAnswers streamEnvironment
      [(streamItem 0, some (streamRequest 1)), (streamItem 1, some (streamRequest 2))] ∧
    ¬ Reports [streamItem 0, streamItem 1] [streamItem 0, streamItem 1]
      (1, ⟨2, readyReadable, .ok⟩) := by
  refine ⟨by rfl, by rfl, by decide, fun hreports => ?_⟩
  exact absurd ((hreports _ _ rfl rfl).1 (by decide) (by decide)) (by decide)

/-- The readable stream is the first one: it is reported. -/
theorem wait_reports_first :
    pollWaitItems streamEnvironment [streamItem 1, streamItem 0] =
      .ok ([{ streamItem 1 with ready := waitReadable }, streamItem 0], 1) ∧
    Reports [streamItem 1, streamItem 0]
      [{ streamItem 1 with ready := waitReadable }, streamItem 0]
      (0, ⟨2, readyReadable, .ok⟩) := by
  have hpoll : pollWaitItems streamEnvironment [streamItem 1, streamItem 0] =
      .ok ([{ streamItem 1 with ready := waitReadable }, streamItem 0], 1) := by rfl
  have hanswers : networkAnswers streamEnvironment
      [(streamItem 1, some (streamRequest 2)), (streamItem 0, some (streamRequest 1))] =
      [(0, ⟨2, readyReadable, .ok⟩), (1, ⟨1, 0, .ok⟩)] := by rfl
  have hfirst : ReadyFirst (networkAnswers streamEnvironment
      [(streamItem 1, some (streamRequest 2)), (streamItem 0, some (streamRequest 1))]) := by
    rw [hanswers]
    intro k answer hk hbits
    rcases k with - | - | k
    · decide
    · obtain rfl : (1, ⟨1, 0, .ok⟩) = answer := by simpa using hk
      exact absurd hbits (by decide)
    · simp at hk
  refine ⟨hpoll, ((wait_reports_iff hpoll (by rfl)).mpr hfirst).1 _ ?_⟩
  exact mem_cons_self

end Streams

end OpenRFS.NativeWait
