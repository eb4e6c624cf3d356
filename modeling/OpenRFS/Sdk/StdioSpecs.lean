import OpenRFS.Sdk.Stdio

/-!
# What a call on a stream keeps

As long as every write fits the buffer, what the file has accepted and what is pending in
the buffer are together what callers have supplied (`Kept`). Flushing moves bytes from one
side to the other, provided that it fails at once if it fails.
-/

namespace OpenRFS.Sdk

open List OpenRFS.Sdk.Stream

variable {k : Kernel} {s : Stream}

/-- Every write accepts all bytes. -/
def Full (k : Kernel) : Prop := ∀ call asked, k.write call asked = asked

/-- No write fails, though it may be short. -/
def Succeeds (k : Kernel) : Prop := ∀ call asked, 0 < asked → 0 < k.write call asked

def Stream.pending (s : Stream) : Bytes := if s.dirty then s.buffer else []

structure Kept (k : Kernel) (s : Stream) : Prop where
  ledger : s.accepted ++ s.pending = s.supplied
  passed : Full k → s.passed = s.accepted
  writable : s.dirty = true → s.writable = true
  input : s.dirty = true → s.readable = true → s.buffer ≠ []

theorem Kept.opened (k : Kernel) (readable writable console : Bool) :
    Kept k (opened readable writable console) :=
  ⟨rfl, fun _ => rfl, nofun, nofun⟩

/-! ### Flushing -/

/-- A flush that fails does so at its first write. -/
def Steady (k : Kernel) (s : Stream) : Prop :=
  (flushLocked k s).1 = true ∨ k.write s.calls s.buffer.length = 0

theorem flushFrom_cases (passes : ℕ) (rest : Bytes) (s : Stream) (hle : rest.length ≤ passes) :
    ∃ ok calls passed error sent, flushFrom k passes rest s =
        (ok, { s with
          calls := calls, passed := passed, accepted := s.accepted ++ sent, error := error }) ∧
      (ok → sent = rest) ∧ (Succeeds k → ok) ∧
      (Full k → passed = s.passed ++ rest) := by
  induction passes generalizing rest s with
  | zero =>
    have hrest : rest = [] := length_eq_zero_iff.mp (Nat.le_zero.mp hle)
    refine ⟨true, s.calls, s.passed, s.error, [], ?_, fun _ => hrest.symm, fun _ => rfl, ?_⟩
    · rw [flushFrom, append_nil]
    · rw [hrest, append_nil]
      exact fun _ => rfl
  | succ passes ih =>
    rw [flushFrom]
    by_cases hrest : rest = []
    · rw [if_pos hrest]
      refine ⟨true, s.calls, s.passed, s.error, [], ?_, fun _ => hrest.symm, fun _ => rfl, ?_⟩
      · rw [append_nil]
      · rw [hrest, append_nil]
        exact fun _ => rfl
    rw [if_neg hrest]
    have hpos := length_pos_iff.mpr hrest
    by_cases hzero : k.write s.calls rest.length = 0
    · rw [if_pos hzero, hzero]
      refine ⟨false, _, _, _, [], rfl, nofun, fun hk => ?_, fun _ => rfl⟩
      exact absurd hzero (hk s.calls rest.length hpos).ne'
    · rw [if_neg hzero]
      obtain ⟨ok, calls, passed, error, sent, heq, hsent, hsucceeds, hfull⟩ := ih
        (rest.drop (k.write s.calls rest.length))
        { s with
          calls := s.calls + 1
          passed := s.passed ++ rest
          accepted := s.accepted ++ rest.take (k.write s.calls rest.length) }
        (by rw [length_drop]; omega)
      refine ⟨ok, calls, passed, error, rest.take (k.write s.calls rest.length) ++ sent, ?_,
        fun hok => ?_, hsucceeds, fun hk => ?_⟩
      · rw [heq, append_assoc]
      · rw [hsent hok, take_append_drop]
      · rw [hfull hk, hk, drop_length, append_nil]

theorem flushLocked_cases (h : s.dirty → s.writable) :
    (flushLocked k s = (true, s) ∧ s.pending = []) ∨
    (s.dirty ∧ s.buffer ≠ []) ∧ ∃ calls passed error, (Full k → passed = s.passed ++ s.buffer) ∧
      (flushLocked k s = (true, { s with
          calls := calls, passed := passed, accepted := s.accepted ++ s.buffer, error := error
          buffer := [], position := 0, dirty := false }) ∨
        ¬ Succeeds k ∧ ∃ sent, flushLocked k s = (false, { s with
          calls := calls, passed := passed, accepted := s.accepted ++ sent, error := error }) ∧
          (k.write s.calls s.buffer.length = 0 → sent = [])) := by
  unfold flushLocked
  by_cases hnothing : s.buffer = [] ∨ (s.writable && s.dirty) = false
  · rw [if_pos hnothing]
    refine .inl ⟨rfl, ?_⟩
    unfold pending
    cases hdirty : s.dirty with
    | false => rfl
    | true =>
      rw [hdirty, h hdirty] at hnothing
      exact hnothing.resolve_right nofun
  rw [if_neg hnothing]
  rw [not_or, Bool.not_eq_false, Bool.and_eq_true] at hnothing
  obtain ⟨hbuffer, -, hdirty⟩ := hnothing
  refine .inr ⟨⟨hdirty, hbuffer⟩, ?_⟩
  obtain ⟨ok, calls, passed, error, sent, heq, hsent, hsucceeds, hfull⟩ :=
    flushFrom_cases (k := k) s.buffer.length s.buffer s le_rfl
  refine ⟨calls, passed, error, hfull, ?_⟩
  cases ok with
  | true =>
    rw [heq, hsent rfl]
    exact .inl rfl
  | false =>
    refine .inr ⟨fun hk => Bool.noConfusion (hsucceeds hk), sent, by rw [heq], fun hzero => ?_⟩
    -- the first pass ends the loop
    obtain ⟨n, hn⟩ := Nat.exists_eq_succ_of_ne_zero
      (length_pos_iff.mpr hbuffer).ne'
    have hfirst : (flushFrom k s.buffer.length s.buffer s).2.accepted = s.accepted := by
      rw [hn, flushFrom, if_neg hbuffer]
      simp [hzero]
    rw [heq] at hfirst
    exact append_right_eq_self.mp hfirst

theorem steady_of_succeeds (hk : Succeeds k) (h : s.dirty → s.writable) :
    Steady k s := by
  rcases flushLocked_cases (k := k) h with ⟨heq, -⟩ | ⟨-, _, _, _, -, heq | ⟨hnot, -⟩⟩
  · exact .inl (by rw [heq])
  · exact .inl (by rw [heq])
  · exact absurd hk hnot

/-- The mode of a stream and what it was given do not change. -/
structure Same (s s' : Stream) : Prop where
  readable : s'.readable = s.readable
  writable : s'.writable = s.writable
  supplied : s'.supplied = s.supplied
  reported : s'.reported = s.reported

theorem Same.refl (s : Stream) : Same s s := ⟨rfl, rfl, rfl, rfl⟩

theorem Same.trans {s' s'' : Stream} (h : Same s s') (h' : Same s' s'') : Same s s'' :=
  ⟨h'.readable.trans h.readable, h'.writable.trans h.writable, h'.supplied.trans h.supplied,
    h'.reported.trans h.reported⟩

/-- What a call does that supplies nothing: if nothing was pending, nothing is. -/
structure Calm (k : Kernel) (s s' : Stream) : Prop where
  kept : Kept k s'
  same : Same s s'
  clean : s.pending = [] → s'.pending = []

theorem Kept.flush (h : Kept k s) (hsteady : Steady k s) :
    Calm k s (flushLocked k s).2 ∧ ((flushLocked k s).1 → (flushLocked k s).2.pending = [] ∧
        (s.readable → (flushLocked k s).2.dirty = false)) := by
  rcases flushLocked_cases (k := k) h.writable with
    ⟨heq, hpending⟩ | ⟨⟨hdirty, hbuffer⟩, calls, passed, error, hfull, heq | ⟨-, sent, heq, hsent⟩⟩
  · rw [heq]
    refine ⟨⟨h, .refl s, id⟩, fun _ => ⟨hpending, fun hreadable => ?_⟩⟩
    by_contra hdirty
    rw [Bool.not_eq_false] at hdirty
    rw [pending, if_pos hdirty] at hpending
    exact h.input hdirty hreadable hpending
  · rw [heq]
    have hledger := h.ledger
    rw [pending, if_pos hdirty] at hledger
    refine ⟨⟨⟨?_, fun hk => ?_, nofun, nofun⟩,
      ⟨rfl, rfl, rfl, rfl⟩, fun _ => rfl⟩, fun _ => ⟨rfl, fun _ => rfl⟩⟩
    · rw [← hledger]
      exact append_nil _
    · rw [hfull hk, h.passed hk]
  · have hnone : sent = [] := by
      rcases hsteady with hok | hzero
      · rw [heq] at hok
        cases hok
      · exact hsent hzero
    subst hnone
    rw [heq, append_nil]
    refine ⟨⟨⟨h.ledger, fun hk => ?_, h.writable, h.input⟩, ⟨rfl, rfl, rfl, rfl⟩, id⟩, nofun⟩
    -- a kernel that accepts everything does not fail
    have hlength : s.buffer.length = 0 := by
      rcases hsteady with hok | hzero
      · rw [heq] at hok
        cases hok
      · rwa [hk] at hzero
    exact absurd (length_eq_zero_iff.mp hlength) hbuffer

/-! ### Reading -/

theorem readLoop_eq (passes left : ℕ) (s : Stream) :
    ∃ calls position buffer error eof, (readLoop k passes left s).2 = { s with
      calls := calls, position := position, buffer := buffer, error := error, eof := eof } := by
  induction passes generalizing left s with
  | zero => exact ⟨_, _, _, _, _, rfl⟩
  | succ passes ih =>
    rw [readLoop]
    by_cases hleft : left = 0
    · rw [if_pos hleft]
      exact ⟨_, _, _, _, _, rfl⟩
    rw [if_neg hleft]
    by_cases hposition : s.position < s.buffer.length
    · rw [if_pos hposition]
      exact ih _ _
    rw [if_neg hposition]
    cases k.read s.calls bufSize with
    | none => exact ⟨_, _, _, _, _, rfl⟩
    | some bytes =>
      cases bytes with
      | nil => exact ⟨_, _, _, _, _, rfl⟩
      | cons b bytes => exact ih _ _

theorem readClean_eq (bytes : ℕ) (s : Stream) :
    ∃ calls position buffer error eof pushed, (readClean k bytes s).2 = { s with
      calls := calls, position := position, buffer := buffer, error := error, eof := eof
      pushed := pushed } := by
  have hpushed : ∃ pushed, (if bytes = 0 then s else { s with pushed := none }) =
      { s with pushed := pushed } := by
    split_ifs
    · exact ⟨_, rfl⟩
    · exact ⟨none, rfl⟩
  obtain ⟨pushed, hpushed⟩ := hpushed
  unfold readClean
  rw [hpushed]
  generalize (if bytes = 0 then [] else s.pushed.toList) = front
  by_cases hconsole : s.console ∧ front.length < bytes
  · rw [if_pos hconsole]
    cases k.read s.calls (bytes - front.length) with
    | none | some data => exact ⟨_, _, _, _, _, _, rfl⟩
  · rw [if_neg hconsole]
    obtain ⟨calls, position, buffer, error, eof, heq⟩ := readLoop_eq (k := k) (2 * bytes + 1)
      (bytes - front.length) { s with pushed := pushed }
    exact ⟨calls, position, buffer, error, eof, pushed, heq⟩

theorem Kept.fread (h : Kept k s) (size count : ℕ)
    (hsteady : tooMany size count = false → s.readable → s.dirty → Steady k s) :
    Calm k s (fread k size count s) := by
  unfold Sdk.fread readLocked
  by_cases hmany : tooMany size count
  · rw [if_pos hmany]
    exact ⟨h, .refl s, id⟩
  rw [if_neg hmany]
  by_cases hreadable : s.readable
  swap
  · rw [if_neg hreadable]
    exact ⟨{ h with }, ⟨rfl, rfl, rfl, rfl⟩, id⟩
  rw [if_pos hreadable]
  -- input replaces the buffer of a stream that is not dirty
  have hclean : ∀ s' : Stream, Kept k s' → s'.dirty = false →
      Kept k (readClean k (size * count) s').2 ∧ Same s' (readClean k (size * count) s').2 ∧
        (readClean k (size * count) s').2.pending = [] := by
    intro s' h' hdirty
    obtain ⟨calls, position, buffer, error, eof, pushed, heq⟩ :=
      readClean_eq (k := k) (size * count) s'
    have hledger := h'.ledger
    rw [pending, hdirty, if_neg Bool.false_ne_true] at hledger
    rw [heq]
    refine ⟨⟨?_, h'.passed, h'.writable, fun htrue => ?_⟩, ⟨rfl, rfl, rfl, rfl⟩, ?_⟩
    · simpa [pending, hdirty] using hledger
    · rw [hdirty] at htrue
      cases htrue
    · simp [pending, hdirty]
  cases hdirty : s.dirty with
  | false =>
    rw [if_neg Bool.false_ne_true]
    obtain ⟨hkept, hsame, hpending⟩ := hclean s h hdirty
    exact ⟨hkept, hsame, fun _ => hpending⟩
  | true =>
    obtain ⟨hflush, hok⟩ := h.flush (hsteady (by simpa using hmany) hreadable hdirty)
    generalize flushLocked k s = flushed at *
    obtain ⟨ok, s'⟩ := flushed
    cases ok with
    | false => exact hflush
    | true =>
      obtain ⟨hkept, hsame, hpending⟩ := hclean s' hflush.kept ((hok rfl).2 hreadable)
      exact ⟨hkept, hflush.same.trans hsame, fun _ => hpending⟩

/-! ### Writing -/

def Stream.fill (k : Kernel) (s : Stream) (bytes : Bytes) : Stream :=
  let s := (leaveInput k s).2
  { s with dirty := true, buffer := s.buffer ++ bytes, supplied := s.supplied ++ bytes }

theorem leaveInput_cases (k : Kernel) (s : Stream) :
    (∃ calls position, leaveInput k s =
      (true, { s with calls := calls, position := position, buffer := s.pending })) ∨
    ∃ calls, leaveInput k s = (false, { s with calls := calls, error := true }) := by
  unfold leaveInput
  by_cases houtput : s.dirty ∨ s.buffer = []
  · rw [if_pos houtput]
    refine .inl ⟨s.calls, s.position, ?_⟩
    have hpending : s.pending = s.buffer := by
      unfold pending
      rcases houtput with hdirty | hempty
      · rw [if_pos hdirty]
      · rw [hempty, ite_self]
    rw [hpending]
  have hpending : s.pending = [] := if_neg fun hdirty => houtput (.inl hdirty)
  rw [hpending]
  split_ifs
  · exact .inl ⟨_, _, rfl⟩
  · exact .inl ⟨_, _, rfl⟩
  · exact .inr ⟨_, rfl⟩

theorem writeLoop_fits (passes : ℕ) (bytes : Bytes) (s : Stream)
    (hfits : s.buffer.length + bytes.length ≤ bufSize) :
    let filled := { s with buffer := s.buffer ++ bytes, supplied := s.supplied ++ bytes }
    writeLoop k (passes + 2) bytes s = some ([], filled) ∨
      (bytes ≠ [] ∧ (s.buffer.length + bytes.length = bufSize ∨ s.console ∧ 0x0a ∈ bytes)) ∧
        writeLoop k (passes + 2) bytes s = some ([], (flushLocked k filled).2) := by
  rw [writeLoop]
  by_cases hbytes : bytes = []
  · rw [if_pos hbytes, hbytes, append_nil, append_nil]
    exact .inl rfl
  rw [if_neg hbytes, take_of_length_le (by omega), drop_of_length_le (by omega)]
  dsimp only
  have hdone : ∀ s' : Stream, writeLoop k (passes + 1) [] s' = some ([], s') := fun s' => by
    rw [writeLoop, if_pos rfl]
  split_ifs with hflush
  · rw [length_append] at hflush
    refine .inr ⟨⟨hbytes, hflush⟩, ?_⟩
    generalize flushLocked k { s with
      buffer := s.buffer ++ bytes, supplied := s.supplied ++ bytes } = flushed
    obtain ⟨ok, s'⟩ := flushed
    cases ok with
    | false => rfl
    | true => exact hdone s'
  · exact .inl (hdone _)

/-- A write that fits ends with a flush: it fills the buffer, or it ends a line of the
console. -/
def Stream.Flushes (s : Stream) (bytes : Bytes) : Prop :=
  bytes ≠ [] ∧ (s.pending.length + bytes.length = bufSize ∨ s.console = true ∧ 0x0a ∈ bytes)

/-- What a write has to meet: it fits the buffer, it is not empty on a stream that is
read too, and if it ends with a flush, this is steady. -/
structure Fits (k : Kernel) (s : Stream) (bytes : Bytes) : Prop where
  room : s.pending.length + bytes.length ≤ bufSize
  some : bytes = [] → s.readable = false ∨ s.pending ≠ []
  steady : s.Flushes bytes → Steady k (s.fill k bytes)

theorem Kept.fill (h : Kept k s) {bytes : Bytes} (hwritable : s.writable)
    (hfits : Fits k s bytes) {calls position : ℕ}
    (hleave : leaveInput k s =
      (true, { s with calls := calls, position := position, buffer := s.pending })) :
    Kept k (s.fill k bytes) := by
  unfold Stream.fill
  rw [hleave]
  refine ⟨?_, h.passed, fun _ => hwritable, fun _ hreadable hempty => ?_⟩
  · change s.accepted ++ (s.pending ++ bytes) = s.supplied ++ bytes
    rw [← append_assoc, h.ledger]
  · obtain ⟨hpending, hbytes⟩ := append_eq_nil_iff.mp hempty
    rcases hfits.some hbytes with hnot | hne
    · rw [show s.readable = true from hreadable] at hnot
      cases hnot
    · exact hne hpending

/-- A write that fits is supplied as a whole, unless the stream cannot be written to or
the file cannot be positioned. -/
theorem Kept.writeLocked (h : Kept k s) (bytes : Bytes)
    (hfits : s.writable → Fits k s bytes) :
    ∃ left s', writeLocked k bytes s = some (left, s') ∧ Kept k s' ∧ s'.readable = s.readable ∧
      s'.reported = s.reported ∧
      (left = bytes ∧ s'.supplied = s.supplied ∨ left = [] ∧ s'.supplied = s.supplied ++ bytes) := by
  unfold Sdk.writeLocked
  by_cases hwritable : s.writable
  swap
  · rw [if_neg hwritable]
    exact ⟨_, _, rfl, { h with }, rfl, rfl, .inl ⟨rfl, rfl⟩⟩
  rw [if_pos hwritable]
  have hfits := hfits hwritable
  rcases leaveInput_cases k s with ⟨calls, position, hleave⟩ | ⟨calls, hleave⟩
  swap
  · rw [hleave]
    exact ⟨_, _, rfl, { h with }, rfl, rfl, .inl ⟨rfl, rfl⟩⟩
  have hkept := h.fill hwritable hfits hleave
  have hsteady := hfits.steady
  unfold Stream.fill at hkept hsteady
  rw [hleave] at hkept hsteady ⊢
  dsimp only at hkept hsteady ⊢
  rcases writeLoop_fits (k := k) (2 * bytes.length) bytes
    { s with dirty := true, calls := calls, position := position, buffer := s.pending }
    hfits.room with hloop | ⟨hflushes, hloop⟩
  · rw [hloop]
    exact ⟨_, _, rfl, hkept, rfl, rfl, .inr ⟨rfl, rfl⟩⟩
  · rw [hloop]
    obtain ⟨⟨hflushed, hsame, -⟩, -⟩ := hkept.flush (hsteady hflushes)
    exact ⟨_, _, rfl, hflushed, hsame.readable, hsame.reported, .inr ⟨rfl, hsame.supplied⟩⟩

theorem length_elements (size count : ℕ) (data : ℕ → UInt8) :
    (elements size count data).length = size * count := by
  rw [elements, length_map, length_range]

theorem Kept.fwrite (h : Kept k s) (size count : ℕ) (data : ℕ → UInt8)
    (hfits : tooMany size count = false → s.writable → Fits k s (elements size count data)) :
    ∃ n s', fwrite k size count data s = some (n, s') ∧ Kept k s' ∧ s'.readable = s.readable ∧
      (s.reported = s.supplied → s'.reported = s'.supplied) := by
  unfold Sdk.fwrite
  cases hmany : tooMany size count with
  | true => exact ⟨0, s, rfl, h, rfl, id⟩
  | false =>
    obtain ⟨left, s', hwrite, hkept, hreadable, hreported, hleft⟩ :=
      h.writeLocked (elements size count data) (hfits hmany)
    rw [hwrite]
    refine ⟨_, _, rfl, { hkept with }, hreadable, fun hsame => ?_⟩
    rcases hleft with ⟨rfl, hsupplied⟩ | ⟨rfl, hsupplied⟩
    · rw [length_elements, Nat.sub_self, Nat.zero_div, ite_self, zero_mul, take_zero,
        append_nil, hreported, hsupplied, hsame]
    · have hall : (if size = 0 then 0 else (size * count - List.length ([] : Bytes)) / size) *
          size = size * count := by
        rcases Nat.eq_zero_or_pos size with rfl | hpos
        · rw [mul_zero, zero_mul]
        · rw [if_neg hpos.ne', length_nil, Nat.sub_zero, Nat.mul_div_cancel_left _ hpos, mul_comm]
      rw [hall, take_of_length_le (length_elements size count data).le, hreported, hsupplied, hsame]

/-! ### Calls -/

/-- What a call has to meet: a write fits, and a call that flushes does so steadily. -/
def Meets (k : Kernel) (s : Stream) : Call → Prop
  | .fread size count => tooMany size count = false → s.readable = true → s.dirty = true →
      Steady k s
  | .fwrite size count data => tooMany size count = false → s.writable = true →
      Fits k s (elements size count data)
  | .fseek => s.console = false → Steady k s
  | .fflush | .fclose => Steady k s
  | .ungetc _ | .ftell => True

theorem Kept.ungetc (h : Kept k s) (character : UInt8) : Calm k s (ungetc character s) := by
  unfold Sdk.ungetc
  cases s.pushed with
  | some _ => exact ⟨h, .refl s, id⟩
  | none => exact ⟨{ h with }, ⟨rfl, rfl, rfl, rfl⟩, id⟩

theorem Kept.ftell (h : Kept k s) : Calm k s (ftell s) := by
  unfold Sdk.ftell
  split_ifs
  · exact ⟨h, .refl s, id⟩
  · exact ⟨{ h with }, ⟨rfl, rfl, rfl, rfl⟩, id⟩

theorem Kept.fseek (h : Kept k s) (hsteady : s.console = false → Steady k s) :
    Calm k s (fseek k s) := by
  unfold Sdk.fseek
  split_ifs with hconsole
  · exact ⟨h, .refl s, id⟩
  obtain ⟨hflush, hok⟩ := h.flush (hsteady (by simpa using hconsole))
  generalize flushLocked k s = flushed at *
  obtain ⟨ok, s'⟩ := flushed
  cases ok with
  | false => exact hflush
  | true =>
    obtain ⟨hpending, hdirty⟩ := hok rfl
    have hledger := hflush.kept.ledger
    rw [hpending] at hledger
    refine ⟨⟨?_, hflush.kept.passed, hflush.kept.writable, fun htrue hreadable => ?_⟩,
      ⟨hflush.same.readable, hflush.same.writable, hflush.same.supplied, hflush.same.reported⟩,
      fun _ => ?_⟩
    · rw [← hledger, pending, ite_self]
    · rw [hflush.same.readable] at hreadable
      rw [hdirty hreadable] at htrue
      cases htrue
    · rw [pending, ite_self]

def Call.writes : Call → Bool
  | .fwrite _ _ _ => true
  | _ => false

theorem Kept.calm (h : Kept k s) {call : Call} (hmeets : Meets k s call)
    (hwrites : call.writes = false) : ∃ s', step k s call = some s' ∧ Calm k s s' := by
  cases call with
  | fread size count => exact ⟨_, rfl, h.fread size count hmeets⟩
  | fwrite => cases hwrites
  | ungetc character => exact ⟨_, rfl, h.ungetc character⟩
  | fseek => exact ⟨_, rfl, h.fseek hmeets⟩
  | ftell => exact ⟨_, rfl, h.ftell⟩
  | fflush | fclose => exact ⟨_, rfl, (h.flush hmeets).1⟩

theorem Kept.step (h : Kept k s) {call : Call} (hmeets : Meets k s call) :
    ∃ s', step k s call = some s' ∧ Kept k s' ∧ s'.readable = s.readable ∧
      (s.reported = s.supplied → s'.reported = s'.supplied) := by
  cases hwrites : call.writes with
  | false =>
    obtain ⟨s', hstep, hcalm⟩ := h.calm hmeets hwrites
    refine ⟨s', hstep, hcalm.kept, hcalm.same.readable, fun htold => ?_⟩
    rw [hcalm.same.reported, hcalm.same.supplied, htold]
  | true =>
    cases call with
    | fwrite size count data =>
      obtain ⟨n, s', hwrite, h', hrest⟩ := h.fwrite size count data hmeets
      refine ⟨s', ?_, h', hrest⟩
      rw [Sdk.step, hwrite]
      rfl
    | _ => cases hwrites

/-!
## Runs of calls on a stream

A run whose calls all meet a condition returns and keeps the ledger of the stream. With a
kernel that never fails it is enough that every write fits the buffer (`Modest`).
-/

/-- Every call of the run meets `P` in the state in which it is made. -/
def Along (k : Kernel) (P : Stream → Call → Prop) : Stream → List Call → Prop
  | _, [] => True
  | s, call :: calls => P s call ∧ ∀ s', step k s call = some s' → Along k P s' calls

/-- A write fits the buffer, and is not empty on a stream that is read too. -/
def Modest (s : Stream) : Call → Prop
  | .fwrite size count _ => tooMany size count = false → s.writable = true →
      s.pending.length + size * count ≤ bufSize ∧
        (size * count = 0 → s.readable = false ∨ s.pending ≠ [])
  | _ => True

theorem Full.succeeds (hk : Full k) : Succeeds k := fun call asked hpos => by
  rw [hk]
  exact hpos

theorem Kept.meets (h : Kept k s) (hk : Succeeds k) {call : Call} (hmodest : Modest s call) :
    Meets k s call := by
  cases call with
  | fwrite size count data =>
    intro hmany hwritable
    obtain ⟨hroom, hsome⟩ := hmodest hmany hwritable
    refine ⟨?_, fun hempty => hsome ?_, fun _ => steady_of_succeeds hk fun _ => ?_⟩
    · rwa [length_elements]
    · rw [← length_elements size count data, hempty, List.length_nil]
    · unfold Stream.fill
      rcases leaveInput_cases k s with ⟨_, _, hleave⟩ | ⟨_, hleave⟩
      · rw [hleave]
        exact hwritable
      · rw [hleave]
        exact hwritable
  | fread size count => exact fun _ _ _ => steady_of_succeeds hk h.writable
  | fseek => exact fun _ => steady_of_succeeds hk h.writable
  | fflush | fclose => exact steady_of_succeeds hk h.writable
  | ungetc character => trivial
  | ftell => trivial

theorem Kept.run {P : Stream → Call → Prop}
    (hP : ∀ {s : Stream} {call : Call}, Kept k s → P s call → Meets k s call)
    (calls : List Call) (h : Kept k s) (hrun : Along k P s calls) :
    ∃ s', run k s calls = some s' ∧ Kept k s' ∧
      (s.reported = s.supplied → s'.reported = s'.supplied) := by
  induction calls generalizing s with
  | nil => exact ⟨s, rfl, h, id⟩
  | cons call calls ih =>
    obtain ⟨hcall, hrest⟩ := hrun
    obtain ⟨s', hstep, h', -, htold⟩ := h.step (hP h hcall)
    obtain ⟨s'', hrun, h'', htold'⟩ := ih h' (hrest s' hstep)
    refine ⟨s'', ?_, h'', fun heq => htold' (htold heq)⟩
    rw [Sdk.run, hstep]
    exact hrun

/-! ### What is written was supplied -/

/-- With a file that accepts everything, what is passed to `rsd_file_write` is a prefix of
what callers supplied, if every write fits the buffer. -/
theorem passed_isPrefix_supplied (hk : Full k) (readable writable : Bool) (calls : List Call)
    (hcalls : Along k Modest (.opened readable writable false) calls) :
    ∃ s, run k (.opened readable writable false) calls = some s ∧ s.passed <+: s.supplied := by
  obtain ⟨s, hrun, h, -⟩ := Kept.run (fun h => h.meets hk.succeeds) calls
    (.opened k readable writable false) hcalls
  refine ⟨s, hrun, ?_⟩
  rw [h.passed hk, ← h.ledger]
  exact List.prefix_append _ _

def sevens : Kernel where
  write _ asked := asked
  write_le _ _ := le_rfl
  read _ _ := some [7]
  seek _ := true

theorem passed_isPrefix_supplied_sevens :
    ∃ s, run sevens (.opened true true false) [.fread 1 1, .fwrite 1 1 fun _ => 9, .fflush] =
      some s ∧ s.passed <+: s.supplied := by
  refine passed_isPrefix_supplied (fun _ _ => rfl) true true _ ⟨trivial, fun s h => ?_⟩
  cases h
  exact ⟨fun _ _ => ⟨by decide +kernel, nofun⟩, fun s h => ⟨trivial, fun _ _ => trivial⟩⟩

/-- An empty write marks the buffer of an update stream, and the byte read next is written
back to the file. -/
theorem input_written_back :
    ∃ s, run sevens (.opened true true false) [.fwrite 1 0 fun _ => 0, .fread 1 1, .fflush] =
      some s ∧ s.supplied = [] ∧ ¬ s.passed <+: s.supplied :=
  ⟨_, rfl, rfl, by decide +kernel⟩

/-! ### What is accepted was reported -/

/-- What the file accepts is a prefix of what `fwrite` reported, if every write fits the
buffer and a flush that fails has sent nothing. -/
theorem accepted_isPrefix_reported (readable console : Bool) (calls : List Call)
    (hcalls : Along k (Meets k) (.opened readable true console) calls) :
    ∃ s, run k (.opened readable true console) calls = some s ∧ s.accepted <+: s.reported := by
  obtain ⟨s, hrun, h, htold⟩ := Kept.run (fun _ => id) calls (.opened k readable true console) hcalls
  refine ⟨s, hrun, ?_⟩
  rw [htold rfl, ← h.ledger]
  exact List.prefix_append _ _

def late : Kernel where
  write call asked := if call = 0 then 0 else asked
  write_le call asked := by
    split_ifs
    · exact Nat.zero_le asked
    · exact le_rfl
  read _ _ := none
  seek _ := true

theorem accepted_isPrefix_reported_late :
    ∃ s, run late (.opened false true false) [.fwrite 1 2 fun _ => 7, .fflush, .fflush] = some s ∧
      s.accepted <+: s.reported := by
  refine accepted_isPrefix_reported false false _
    ⟨fun _ _ => ⟨by decide +kernel, fun _ => .inl rfl, fun _ => .inr rfl⟩, fun s h => ?_⟩
  cases h
  refine ⟨.inr rfl, fun s h => ?_⟩
  cases h
  exact ⟨.inl rfl, fun _ _ => trivial⟩

def stumbling : Kernel where
  write call asked := if call = 1 then 0 else if call = 0 then min 1 asked else asked
  write_le call asked := by
    split_ifs
    · exact Nat.zero_le asked
    · exact Nat.min_le_right 1 asked
    · exact le_rfl
  read _ _ := none
  seek _ := true

/-- A flush that failed after one byte sends this byte again. -/
theorem byte_sent_twice :
    ∃ s, run stumbling (.opened false true false)
        [.fwrite 1 2 fun i => if i = 0 then 0x61 else 0x62, .fflush, .fflush] = some s ∧
      s.reported = [0x61, 0x62] ∧ s.accepted = [0x61, 0x61, 0x62] ∧
      ¬ s.accepted <+: s.reported :=
  ⟨_, rfl, rfl, rfl, by decide +kernel⟩

end OpenRFS.Sdk
