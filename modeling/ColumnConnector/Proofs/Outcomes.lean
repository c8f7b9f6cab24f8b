import Mathlib.Data.List.Forall2

/-!
# Good outcomes

When a computation that may fail has a value, so have its parts.  Each lemma takes one construct
apart; for a list (`mapM_eq_ok_iff`) the elements have values one by one and in order.

The last section is about such lists of elements and values side by side.
-/

namespace ColumnConnector

variable {ε ε' α β : Type}

theorem eq_ok_of_toOption {outcome : Except ε α} {a : α} (h : outcome.toOption = some a) :
    outcome = .ok a := by
  cases outcome with
  | error e => cases h
  | ok b => exact congrArg Except.ok (Option.some.inj h)

theorem bind_eq_ok_iff {outcome : Except ε α} {f : α → Except ε β} {b : β} :
    (outcome >>= f) = .ok b ↔ ∃ a, outcome = .ok a ∧ f a = .ok b := by
  cases outcome with
  | error e =>
    constructor
    · intro h
      cases h
    · rintro ⟨a, h, -⟩
      cases h
  | ok a =>
    constructor
    · intro h
      exact ⟨a, rfl, h⟩
    · rintro ⟨a', h, hf⟩
      cases h
      exact hf

theorem map_eq_ok_iff {outcome : Except ε α} {f : α → β} {b : β} :
    f <$> outcome = .ok b ↔ ∃ a, outcome = .ok a ∧ f a = b := by
  cases outcome with
  | error e =>
    constructor
    · intro h
      cases h
    · rintro ⟨a, h, -⟩
      cases h
  | ok a =>
    constructor
    · intro h
      cases h
      exact ⟨a, rfl, rfl⟩
    · rintro ⟨a', h, hf⟩
      cases h
      rw [← hf]
      rfl

theorem mapError_eq_ok_iff {outcome : Except ε α} {f : ε → ε'} {a : α} :
    outcome.mapError f = .ok a ↔ outcome = .ok a := by
  cases outcome with
  | error e =>
    constructor <;> intro h <;> cases h
  | ok a' =>
    constructor <;> intro h <;> cases h <;> rfl

theorem mapM_eq_ok_iff {f : α → Except ε β} {l : List α} {l' : List β} :
    l.mapM f = .ok l' ↔ List.Forall₂ (fun a b => f a = .ok b) l l' := by
  induction l generalizing l' with
  | nil =>
    rw [List.mapM_nil, List.forall₂_nil_left_iff]
    constructor
    · intro h
      cases h
      rfl
    · intro h
      rw [h]
      rfl
  | cons a rest ih =>
    rw [List.mapM_cons, bind_eq_ok_iff, List.forall₂_cons_left_iff]
    constructor
    · rintro ⟨b, hb, hbind⟩
      obtain ⟨bs, hbs, hpure⟩ := bind_eq_ok_iff.1 hbind
      cases hpure
      exact ⟨b, bs, hb, ih.1 hbs, rfl⟩
    · rintro ⟨b, bs, hb, hbs, rfl⟩
      exact ⟨b, hb, bind_eq_ok_iff.2 ⟨bs, ih.2 hbs, rfl⟩⟩

theorem bind_eq_error_iff {outcome : Except ε α} {f : α → Except ε β} {e : ε} :
    (outcome >>= f) = .error e ↔ outcome = .error e ∨ ∃ a, outcome = .ok a ∧ f a = .error e := by
  cases outcome with
  | error e' =>
    constructor
    · intro h
      cases h
      exact .inl rfl
    · rintro (h | ⟨a, h, -⟩)
      · cases h
        rfl
      · cases h
  | ok a =>
    constructor
    · intro h
      exact .inr ⟨a, rfl, h⟩
    · rintro (h | ⟨a', h, hf⟩)
      · cases h
      · cases h
        exact hf

theorem mapError_eq_error_iff {outcome : Except ε α} {f : ε → ε'} {e' : ε'} :
    outcome.mapError f = .error e' ↔ ∃ e, outcome = .error e ∧ f e = e' := by
  cases outcome with
  | error e =>
    constructor
    · intro h
      cases h
      exact ⟨e, rfl, rfl⟩
    · rintro ⟨e₀, h, hf⟩
      cases h
      rw [← hf]
      rfl
  | ok a =>
    constructor
    · intro h
      cases h
    · rintro ⟨e, h, -⟩
      cases h

/-- A traversal fails at the first element without a value. -/
theorem mapM_eq_error_iff {f : α → Except ε β} {l : List α} {e : ε} :
    l.mapM f = .error e ↔ ∃ before a after, l = before ++ a :: after ∧
      (∀ b ∈ before, ∃ b', f b = .ok b') ∧ f a = .error e := by
  induction l with
  | nil =>
    constructor
    · intro h
      cases h
    · rintro ⟨before, a, after, h, -⟩
      exact absurd h (by simp)
  | cons first rest ih =>
    rw [List.mapM_cons, bind_eq_error_iff]
    constructor
    · rintro (hfirst | ⟨b, hb, h⟩)
      · exact ⟨[], first, rest, rfl, List.forall_mem_nil _, hfirst⟩
      · rcases bind_eq_error_iff.1 h with hrest | ⟨_, _, hpure⟩
        · obtain ⟨before, a, after, rfl, hbefore, ha⟩ := ih.1 hrest
          exact ⟨first :: before, a, after, rfl, List.forall_mem_cons.2 ⟨⟨b, hb⟩, hbefore⟩, ha⟩
        · cases hpure
    · rintro ⟨before, a, after, h, hbefore, ha⟩
      cases before with
      | nil =>
        cases h
        exact .inl ha
      | cons b before =>
        cases h
        obtain ⟨⟨b', hb'⟩, hbefore⟩ := List.forall_mem_cons.1 hbefore
        have hrest := ih.2 ⟨before, a, after, rfl, hbefore, ha⟩
        exact .inr ⟨b', hb', bind_eq_error_iff.2 (.inl hrest)⟩

/-- At an element without a value a traversal ends, unless it has ended before. -/
theorem mapM_append_cons_eq_error_iff {f : α → Except ε β} {before after : List α} {a : α}
    {e e' : ε} (ha : f a = .error e) :
    (before ++ a :: after).mapM f = .error e' ↔
      before.mapM f = .error e' ∨ ((∃ bs, before.mapM f = .ok bs) ∧ e' = e) := by
  have hstop : ∀ bs : List β, (do
      let rest ← (a :: after).mapM f
      return bs ++ rest) = (.error e : Except ε (List β)) := by
    intro bs
    rw [List.mapM_cons, ha]
    rfl
  rw [List.mapM_append, bind_eq_error_iff]
  simp only [hstop, Except.error.injEq, exists_and_right, eq_comm]

theorem mapM_congr {f g : α → Except ε β} {l : List α} (h : ∀ a ∈ l, f a = g a) :
    l.mapM f = l.mapM g := by
  induction l with
  | nil => rfl
  | cons a rest ih =>
    rw [List.mapM_cons, List.mapM_cons, h a List.mem_cons_self,
      ih fun b hb => h b (List.mem_cons_of_mem a hb)]

/-- Errors may be renamed before or after a traversal. -/
theorem mapError_mapM {f : α → Except ε β} {g : ε → ε'} {l : List α} :
    (l.mapM f).mapError g = l.mapM fun a => (f a).mapError g := by
  induction l with
  | nil => rfl
  | cons a rest ih =>
    rw [List.mapM_cons, List.mapM_cons, ← ih]
    cases f a with
    | error e => rfl
    | ok b => cases rest.mapM f <;> rfl

/-- A fold that keeps only what came of the last element has a value when each element has one. -/
theorem exists_foldlM_ok_iff {f : α → Except ε β} {l : List α} {b : β} :
    (∃ b', l.foldlM (fun _ a => f a) b = .ok b') ↔ ∀ a ∈ l, ∃ b', f a = .ok b' := by
  induction l generalizing b with
  | nil =>
    constructor
    · intro _ a ha
      cases ha
    · intro _
      exact ⟨b, rfl⟩
  | cons a rest ih =>
    simp only [List.foldlM_cons, bind_eq_ok_iff, List.forall_mem_cons]
    constructor
    · rintro ⟨b', b'', ha, hrest⟩
      exact ⟨⟨b'', ha⟩, ih.1 ⟨b', hrest⟩⟩
    · rintro ⟨⟨b'', ha⟩, hrest⟩
      obtain ⟨b', hb'⟩ := ih.2 hrest
      exact ⟨b', b'', ha, hb'⟩

theorem exists_error_iff {outcome : Except ε α} :
    (∃ e, outcome = .error e) ↔ ¬ ∃ a, outcome = .ok a := by
  cases outcome <;> simp

/-! ### Lists side by side -/

section SideBySide

variable {γ : Type} {R : α → β → Prop} {l : List α} {l' : List β}

/-- Where each element has some partner, there is a list of partners. -/
theorem exists_forall₂ (h : ∀ a ∈ l, ∃ b, R a b) : ∃ l', List.Forall₂ R l l' := by
  induction l with
  | nil => exact ⟨[], .nil⟩
  | cons a rest ih =>
    obtain ⟨b, hb⟩ := h a List.mem_cons_self
    obtain ⟨bs, hbs⟩ := ih fun a' ha' => h a' (List.mem_cons_of_mem a ha')
    exact ⟨b :: bs, .cons hb hbs⟩

theorem exists_mem_of_forall₂ (h : List.Forall₂ R l l') {a : α} (ha : a ∈ l) :
    ∃ b ∈ l', R a b := by
  induction h with
  | nil => exact absurd ha List.not_mem_nil
  | @cons a' b as bs hab _ ih =>
    rcases List.mem_cons.1 ha with rfl | hmem
    · exact ⟨b, List.mem_cons_self, hab⟩
    · obtain ⟨b', hb', hr⟩ := ih hmem
      exact ⟨b', List.mem_cons_of_mem b hb', hr⟩

/-- Only how the elements of the left list are related counts. -/
theorem forall₂_congr_of_mem {S : α → β → Prop} (h : ∀ a ∈ l, ∀ b, R a b ↔ S a b) :
    List.Forall₂ R l l' ↔ List.Forall₂ S l l' := by
  rw [List.forall₂_iff_zip, List.forall₂_iff_zip]
  apply and_congr_right'
  apply forall₂_congr
  intro a b
  apply imp_congr_right
  intro hmem
  exact h a (List.of_mem_zip hmem).1 b

/-- A traversal has a value when it has one at every element. -/
theorem exists_mapM_ok_iff {f : α → Except ε β} :
    (∃ l', l.mapM f = .ok l') ↔ ∀ a ∈ l, ∃ b, f a = .ok b := by
  simp only [mapM_eq_ok_iff]
  constructor
  · rintro ⟨l', h⟩ a ha
    obtain ⟨b, -, hb⟩ := exists_mem_of_forall₂ h ha
    exact ⟨b, hb⟩
  · exact exists_forall₂

/-- What holds between the elements of a list holds in another form between their partners. -/
theorem pairwise_of_forall₂ {P : α → α → Prop} {Q : β → β → Prop} (h : List.Forall₂ R l l')
    (hl : l.Pairwise P) (hpq : ∀ a b a' b', R a a' → R b b' → P a b → Q a' b') :
    l'.Pairwise Q := by
  induction h with
  | nil => exact .nil
  | @cons a b as bs hab hrest ih =>
    obtain ⟨hhead, htail⟩ := List.pairwise_cons.1 hl
    refine List.pairwise_cons.2 ⟨fun b' hb' => ?_, ih htail⟩
    obtain ⟨a', ha', hr⟩ := exists_mem_of_forall₂ hrest.flip hb'
    exact hpq a a' b b' hab hr (hhead a' ha')

/-- Partners of partners. -/
theorem forall₂_comp {S : β → γ → Prop} {l'' : List γ} (h : List.Forall₂ R l l')
    (h' : List.Forall₂ S l' l'') : List.Forall₂ (fun a c => ∃ b, R a b ∧ S b c) l l'' := by
  induction h generalizing l'' with
  | nil =>
    cases h'
    exact .nil
  | @cons a b _ _ hab _ ih =>
    obtain ⟨c, rest, hbc, hrest, rfl⟩ := List.forall₂_cons_left_iff.1 h'
    exact .cons ⟨b, hab, hbc⟩ (ih hrest)

/-- Partners keep the company of their elements. -/
theorem forall₂_zip_right (h : List.Forall₂ R l l') (m : List γ) :
    List.Forall₂ (fun a b => R a.1 b.1 ∧ b.2 = a.2) (l.zip m) (l'.zip m) := by
  induction h generalizing m with
  | nil => exact .nil
  | cons hab _ ih =>
    cases m with
    | nil => exact .nil
    | cons c rest => exact .cons ⟨hab, rfl⟩ (ih rest)

end SideBySide

end ColumnConnector
