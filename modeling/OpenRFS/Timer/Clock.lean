import OpenRFS.Timer.Served

/-!
# Conversions between counts and time

`tsc.c` turns a span of its counter into nanoseconds, and `apic_timer.c` turns an interval
into a count. Both split a product so that no half leaves 64 bits, and both are exact: they
compute the floor of the quotient over the integers.
-/

namespace OpenRFS.Timer

def maxFrequency : ℕ := 18000000000

inductive TscStatus
  | notCounting | wentBackwards | rateOutOfRange
  deriving DecidableEq, Repr

def rateFromSpan (start finish referenceFrequency referenceTicks : ℕ) : Except TscStatus ℕ :=
  if referenceFrequency = 0 ∨ referenceTicks = 0 then .error .notCounting
  else if finish < start then .error .wentBackwards
  else if finish = start then .error .notCounting
  else if finish - start > (2 ^ 64 - 1) / referenceFrequency then .error .rateOutOfRange
  else
    let rate := (finish - start) * referenceFrequency % 2 ^ 64 / referenceTicks
    if rate = 0 then .error .notCounting
    else if rate > maxFrequency then .error .rateOutOfRange
    else .ok rate

/-- `span_to_nanoseconds`, in the arithmetic of 64-bit words. -/
def spanToNanoseconds (elapsed rate : ℕ) : ℕ :=
  (elapsed / rate * second % 2 ^ 64 + elapsed % rate * second % 2 ^ 64 / rate) % 2 ^ 64

variable {start finish frequency ticks rate : ℕ}

theorem rateFromSpan_bounds (h : rateFromSpan start finish frequency ticks = .ok rate) :
    0 < rate ∧ rate ≤ maxFrequency := by
  unfold rateFromSpan at h
  dsimp only at h
  split_ifs at h with _ _ _ _ hzero hmax
  cases h
  exact ⟨Nat.pos_of_ne_zero hzero, le_of_not_gt hmax⟩

theorem remainder_lt (hpos : 0 < rate) (hmax : rate ≤ maxFrequency) (elapsed : ℕ) :
    elapsed % rate * second < 2 ^ 64 :=
  calc elapsed % rate * second ≤ maxFrequency * second :=
        Nat.mul_le_mul_right _ ((Nat.mod_lt _ hpos).le.trans hmax)
    _ < 2 ^ 64 := by decide

theorem spanToNanoseconds_eq (hpos : 0 < rate) (hmax : rate ≤ maxFrequency) (elapsed : ℕ) :
    spanToNanoseconds elapsed rate = elapsed * second / rate % 2 ^ 64 := by
  unfold spanToNanoseconds
  rw [Nat.mod_eq_of_lt (remainder_lt hpos hmax elapsed), Nat.mod_add_mod,
    split_count hpos]

/-- Both conversions are exact floors. -/
theorem conversions_exact :
    (∀ start finish frequency ticks rate elapsed : ℕ,
      rateFromSpan start finish frequency ticks = .ok rate →
      elapsed % rate * second < 2 ^ 64 ∧
      spanToNanoseconds elapsed rate = elapsed * second / rate % 2 ^ 64 ∧
      ∀ later, elapsed ≤ later → later * second / rate < 2 ^ 64 →
        spanToNanoseconds elapsed rate ≤ spanToNanoseconds later rate) ∧
    ∀ rate nanoseconds count : ℕ, rate ≤ maxCount →
      (countForNanoseconds rate nanoseconds = some count ↔
        count = nanoseconds * rate / second ∧ 1 ≤ count ∧ count ≤ maxCount) := by
  constructor
  · intro start finish frequency ticks rate elapsed hrate
    obtain ⟨hpos, hmax⟩ := rateFromSpan_bounds hrate
    refine ⟨remainder_lt hpos hmax elapsed, spanToNanoseconds_eq hpos hmax elapsed, ?_⟩
    intro later hlater hfits
    have hfloor : elapsed * second / rate ≤ later * second / rate :=
      Nat.div_le_div_right (Nat.mul_le_mul_right second hlater)
    rw [spanToNanoseconds_eq hpos hmax, spanToNanoseconds_eq hpos hmax, Nat.mod_eq_of_lt hfits]
    exact (Nat.mod_le _ _).trans hfloor
  · intro rate nanoseconds count hrate
    exact countForNanoseconds_iff (hrate.trans (by decide))

/-- A counter of 30 counts a second, over a second and a half, and a timer of a thousand
counts a second. -/
theorem conversions_exact_slow :
    spanToNanoseconds 45 30 = 45 * second / 30 % 2 ^ 64 ∧
      (countForNanoseconds 1000 2500000 = some 2 ↔
        2 = 2500000 * 1000 / second ∧ 1 ≤ 2 ∧ 2 ≤ maxCount) :=
  ⟨(conversions_exact.1 0 20 3 2 30 45 rfl).2.1, conversions_exact.2 1000 2500000 2 (by decide)⟩

end OpenRFS.Timer
