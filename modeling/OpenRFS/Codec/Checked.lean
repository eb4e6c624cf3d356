import Mathlib

/-!
# Checked computations

A checker either returns a value or an error. These lemmas take an accepted
computation apart: a sequence is accepted when its parts are, and a checker
that is mapped over a list is accepted when it accepts every element.
-/

namespace OpenRFS.Codec

open List

variable {ε α β : Type} {a : α} {l : List α} {rs : List β} {x : Except ε α} {R : α → β → Prop}
  {f : α → Except ε β}

theorem bind_eq_ok {b : β} : (x >>= f) = .ok b ↔ ∃ a, x = .ok a ∧ f a = .ok b := by
  cases x with
  | error e => simp [bind, Except.bind]
  | ok a => simp [bind, Except.bind]

/-- A check in front of a computation. -/
theorem ite_error_eq_ok {c : Prop} [Decidable c] {e : ε} :
    (if c then .error e else x) = .ok a ↔ ¬ c ∧ x = .ok a := by
  split_ifs with h
  · exact iff_of_false nofun fun hx => hx.1 h
  · exact (and_iff_right h).symm

/-- Results without decidable errors are compared as options. -/
theorem eq_ok_of_toOption (h : x.toOption = some a) : x = .ok a := by
  cases x with
  | error e => cases h
  | ok b => exact congrArg _ (Option.some.inj h)

theorem mapM_eq_ok_iff : l.mapM f = .ok rs ↔ List.Forall₂ (fun a b => f a = .ok b) l rs := by
  induction l generalizing rs with
  | nil =>
    rw [mapM_nil, forall₂_nil_left_iff]
    constructor
    · intro h
      cases h
      rfl
    · rintro rfl
      rfl
  | cons a l ih =>
    rw [mapM_cons, forall₂_cons_left_iff, bind_eq_ok]
    constructor
    · rintro ⟨b, hb, h⟩
      obtain ⟨bs, hbs, h'⟩ := bind_eq_ok.mp h
      cases h'
      exact ⟨b, bs, hb, ih.mp hbs, rfl⟩
    · rintro ⟨b, bs, hb, hbs, rfl⟩
      exact ⟨b, hb, bind_eq_ok.mpr ⟨bs, ih.mpr hbs, rfl⟩⟩

theorem forM_eq_ok_iff {f : α → Except ε Unit} : l.forM f = .ok () ↔ ∀ a ∈ l, f a = .ok () := by
  induction l with
  | nil => exact ⟨fun _ => nofun, fun _ => rfl⟩
  | cons a l ih =>
    change (f a >>= fun _ => l.forM f) = .ok () ↔ _
    rw [bind_eq_ok, forall_mem_cons, ← ih]
    exact ⟨fun ⟨_, ha, hl⟩ => ⟨ha, hl⟩, fun ⟨ha, hl⟩ => ⟨(), ha, hl⟩⟩

/-- A checker that accepts every element of a list accepts the list. -/
theorem mapM_isOk (h : ∀ a ∈ l, ∃ b, f a = .ok b) : ∃ bs, l.mapM f = .ok bs := by
  induction l with
  | nil => exact ⟨[], rfl⟩
  | cons a l ih =>
    obtain ⟨b, hb⟩ := h a (by simp)
    obtain ⟨bs, hbs⟩ := ih fun x hx => h x (by simp [hx])
    refine ⟨b :: bs, ?_⟩
    rw [mapM_eq_ok_iff]
    exact .cons hb (mapM_eq_ok_iff.mp hbs)

/-- Every element of the first list is related to one of the second. -/
theorem exists_mem_right_of_forall₂ (h : List.Forall₂ R l rs) (ha : a ∈ l) : ∃ b ∈ rs, R a b := by
  induction h with
  | nil => cases ha
  | cons hab _ ih =>
    rcases mem_cons.mp ha with rfl | ha
    · exact ⟨_, mem_cons_self, hab⟩
    · obtain ⟨b, hb, hab⟩ := ih ha
      exact ⟨b, mem_cons_of_mem _ hb, hab⟩

/-- Every element of the second list is related to one of the first. -/
theorem exists_mem_left_of_forall₂ (h : List.Forall₂ R l rs) {b : β} (hb : b ∈ rs) :
    ∃ a ∈ l, R a b :=
  exists_mem_right_of_forall₂ (R := flip R) h.flip hb

/-- A property every related value has holds of all values of a related list. -/
theorem forall_mem_of_forall₂ {P : β → Prop} (hP : ∀ a b, R a b → P b) (h : List.Forall₂ R l rs) :
    ∀ b ∈ rs, P b := by
  intro b hb
  obtain ⟨a, -, hab⟩ := exists_mem_left_of_forall₂ h hb
  exact hP a b hab

/-- The places of a list with one more element. -/
theorem getElem?_concat_eq_some {b : α} {i : ℕ} :
    (l ++ [a])[i]? = some b ↔ l[i]? = some b ∨ i = l.length ∧ b = a := by
  rw [List.getElem?_append]
  split_ifs with hlt
  · simp [Nat.ne_of_lt hlt]
  · obtain ⟨k, rfl⟩ := Nat.exists_eq_add_of_le (Nat.le_of_not_lt hlt)
    cases k <;> simp [eq_comm]

/-- Two lists whose elements have the same codes element by element: if a code
determines its good preimage, and exactly the good elements are that preimage,
then the lists are equal when all elements are good. -/
theorem forall₂_eq_iff {good : α → Prop} (hR : ∀ p q r, R p r → R q r → good q → (q = p ↔ good p))
    {ps qs : List α} (hp : List.Forall₂ R ps rs) (hq : List.Forall₂ R qs rs)
    (hgood : ∀ q ∈ qs, good q) : qs = ps ↔ ∀ p ∈ ps, good p := by
  induction hp generalizing qs with
  | nil =>
    cases hq
    simp
  | cons hpr _ ih =>
    cases hq with
    | cons hqr htail =>
      have hhead := hR _ _ _ hpr hqr (hgood _ (by simp))
      have hrest := ih htail fun q hq => hgood q (by simp [hq])
      simp only [List.cons.injEq, forall_mem_cons, hhead, hrest]

end OpenRFS.Codec
