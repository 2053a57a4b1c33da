import Mathlib.Data.List.Forall2

/-!
# Results

What the steps of a chain have given when the chain has given a result or failed.
-/

namespace Bindery

variable {ε : Type*} {α β : Type _}

theorem ok_bind (a : α) (f : α → Except ε β) : (Except.ok a >>= f) = f a := rfl

theorem bind_eq_ok {x : Except ε α} {f : α → Except ε β} {b : β} :
    (x >>= f) = .ok b ↔ ∃ a, x = .ok a ∧ f a = .ok b := by
  cases x with
  | error e => simp [bind, Except.bind]
  | ok a => simp [bind, Except.bind]

theorem bind_eq_error {x : Except ε α} {f : α → Except ε β} {e : ε} :
    (x >>= f) = .error e ↔ x = .error e ∨ ∃ a, x = .ok a ∧ f a = .error e := by
  cases x with
  | error e => simp [bind, Except.bind]
  | ok a => simp [bind, Except.bind]

theorem throw_bind_ne_ok {e : ε} {f : α → Except ε β} {b : β} :
    ((throw e : Except ε α) >>= f) ≠ .ok b := nofun

theorem map_eq_ok {x : Except ε α} {f : α → β} {b : β} :
    x.map f = .ok b ↔ ∃ a, x = .ok a ∧ f a = b := by
  cases x <;> simp [Except.map]

theorem exists_map_eq_ok {x : Except ε α} {f : α → β} :
    (∃ b, x.map f = .ok b) ↔ ∃ a, x = .ok a := by cases x <;> simp [Except.map]

theorem map_eq_error {x : Except ε α} {f : α → β} {e : ε} :
    x.map f = .error e ↔ x = .error e := by
  cases x <;> simp [Except.map]

/-- Chains with one beginning have the same results, up to `k`, if their ends do. -/
theorem map_bind_congr {γ : Type*} {k : β → γ} (x : Except ε α) {f g : α → Except ε β}
    (h : ∀ a, (f a).map k = (g a).map k) : (x >>= f).map k = (x >>= g).map k := by
  cases x with
  | error e => rfl
  | ok a => exact h a

theorem mapError_eq_ok {ε' : Type*} {x : Except ε α} {f : ε → ε'} {a : α} :
    x.mapError f = .ok a ↔ x = .ok a := by
  cases x <;> simp [Except.mapError]

theorem exists_eq_ok {x : Except ε α} (h : x.isOk) : ∃ a, x = .ok a := by
  cases x with
  | error e => cases h
  | ok a => exact ⟨a, rfl⟩

theorem mapM_eq_ok {f : α → Except ε β} {xs : List α} {ys : List β} :
    xs.mapM f = .ok ys ↔ List.Forall₂ (fun x y => f x = .ok y) xs ys := by
  induction xs generalizing ys with
  | nil => cases ys <;> simp [pure, Except.pure]
  | cons x xs ih =>
    rw [List.mapM_cons, bind_eq_ok, List.forall₂_cons_left_iff]
    constructor
    · rintro ⟨y, hy, h⟩
      obtain ⟨tail, htail, h⟩ := bind_eq_ok.mp h
      cases h
      exact ⟨y, tail, hy, ih.mp htail, rfl⟩
    · rintro ⟨y, tail, hy, htail, rfl⟩
      exact ⟨y, hy, bind_eq_ok.mpr ⟨tail, ih.mpr htail, rfl⟩⟩

theorem mapM_congr {f g : α → Except ε β} {xs : List α} (h : ∀ x ∈ xs, f x = g x) :
    xs.mapM f = xs.mapM g := by
  induction xs with
  | nil => rfl
  | cons x xs ih =>
    obtain ⟨hx, hxs⟩ := List.forall_mem_cons.mp h
    rw [List.mapM_cons, List.mapM_cons, hx, ih hxs]

theorem mapM_append_cons (f : α → Except ε β) (xs : List α) (x : α) (ys : List α) :
    (xs ++ x :: ys).mapM f = (do
      let before ← xs.mapM f
      let b ← f x
      let after ← ys.mapM f
      return before ++ b :: after) := by
  simp only [List.mapM_append, List.mapM_cons, bind_assoc, pure_bind]

theorem exists_of_mapM_eq_error {f : α → Except ε β} {xs : List α} {e : ε}
    (h : xs.mapM f = .error e) : ∃ x ∈ xs, f x = .error e := by
  induction xs with
  | nil => cases h
  | cons x xs ih =>
    rw [List.mapM_cons] at h
    rcases bind_eq_error.mp h with hx | ⟨y, -, h⟩
    · exact ⟨x, List.mem_cons_self, hx⟩
    rcases bind_eq_error.mp h with hrest | ⟨ys, -, h⟩
    · obtain ⟨z, hz, hfz⟩ := ih hrest
      exact ⟨z, List.mem_cons_of_mem x hz, hfz⟩
    · cases h

theorem mapM_eq_some {f : α → Option β} {xs : List α} {ys : List β} :
    xs.mapM f = some ys ↔ List.Forall₂ (fun x y => f x = some y) xs ys := by
  induction xs generalizing ys with
  | nil => cases ys <;> simp
  | cons x xs ih =>
    simp only [List.mapM_cons, List.forall₂_cons_left_iff, Option.bind_eq_bind,
      Option.bind_eq_some_iff, Option.pure_def, Option.some.injEq, ih]
    constructor
    · rintro ⟨y, hy, tail, htail, rfl⟩
      exact ⟨y, tail, hy, htail, rfl⟩
    · rintro ⟨y, tail, hy, htail, rfl⟩
      exact ⟨y, hy, tail, htail, rfl⟩

theorem exists_of_forall₂ {R : α → β → Prop} {xs : List α} {ys : List β}
    (h : List.Forall₂ R xs ys) {x : α} (hx : x ∈ xs) : ∃ y ∈ ys, R x y := by
  induction h with
  | nil => cases hx
  | cons hhead _ ih =>
    rcases List.mem_cons.mp hx with rfl | hx
    · exact ⟨_, List.mem_cons_self, hhead⟩
    · obtain ⟨y, hy, hxy⟩ := ih hx
      exact ⟨y, List.mem_cons_of_mem _ hy, hxy⟩

/-- A list can be related to some list when each element can be related to something. -/
theorem exists_forall₂_iff {R : α → β → Prop} {xs : List α} :
    (∃ ys, List.Forall₂ R xs ys) ↔ ∀ x ∈ xs, ∃ y, R x y := by
  constructor
  · rintro ⟨ys, h⟩ x hx
    obtain ⟨y, -, hxy⟩ := exists_of_forall₂ h hx
    exact ⟨y, hxy⟩
  · intro h
    induction xs with
    | nil => exact ⟨[], .nil⟩
    | cons x xs ih =>
      obtain ⟨⟨y, hxy⟩, hrest⟩ := List.forall_mem_cons.mp h
      obtain ⟨ys, hys⟩ := ih hrest
      exact ⟨y :: ys, .cons hxy hys⟩

def OnlyFails (p : ε → Prop) (r : Except ε α) : Prop := ∀ e, r = .error e → p e

section

variable {p : ε → Prop}

theorem onlyFails_ok (a : α) : OnlyFails p (.ok a) := nofun

theorem onlyFails_error {e : ε} (h : p e) : OnlyFails p (.error e : Except ε α) := by
  intro _ he
  cases he
  exact h

theorem OnlyFails.bind {x : Except ε α} {f : α → Except ε β} (hx : OnlyFails p x)
    (hf : ∀ a, x = .ok a → OnlyFails p (f a)) : OnlyFails p (x >>= f) := by
  intro e he
  rcases bind_eq_error.mp he with he | ⟨a, ha, he⟩
  · exact hx e he
  · exact hf a ha e he

theorem OnlyFails.map {x : Except ε α} (hx : OnlyFails p x) (f : α → β) :
    OnlyFails p (x.map f) := fun e he => hx e (map_eq_error.mp he)

theorem onlyFails_mapM {f : α → Except ε β} {xs : List α} (h : ∀ x ∈ xs, OnlyFails p (f x)) :
    OnlyFails p (xs.mapM f) := by
  intro e he
  obtain ⟨x, hx, hfx⟩ := exists_of_mapM_eq_error he
  exact h x hx e hfx

end

def FailsWith (p : ε → Prop) (r : Except ε α) : Prop := ∃ e, r = .error e ∧ p e

section

variable {p : ε → Prop}

@[simp] theorem not_failsWith_ok (a : α) : ¬ FailsWith p (.ok a) := by
  rintro ⟨e, h, -⟩
  cases h

@[simp] theorem failsWith_error {e : ε} : FailsWith p (.error e : Except ε α) ↔ p e := by
  simp [FailsWith]

theorem failsWith_bind {x : Except ε α} {f : α → Except ε β} :
    FailsWith p (x >>= f) ↔ FailsWith p x ∨ ∃ a, x = .ok a ∧ FailsWith p (f a) := by
  cases x with
  | error e =>
    have hbind : (Except.error e >>= f) = .error e := rfl
    simp [hbind]
  | ok a => simp [ok_bind]

@[simp] theorem failsWith_map {x : Except ε α} {f : α → β} :
    FailsWith p (x.map f) ↔ FailsWith p x := by
  cases x <;> simp [Except.map]

theorem failsWith_mapError {ε' : Type*} {f : ε' → ε} {x : Except ε' α} :
    FailsWith p (x.mapError f) ↔ FailsWith (fun e => p (f e)) x := by
  cases x <;> simp [Except.mapError]

/-- The first element that fails decides. -/
theorem failsWith_mapM {f : α → Except ε β} {xs : List α} :
    FailsWith p (xs.mapM f) ↔ ∃ before x after, xs = before ++ x :: after ∧
      (∀ y ∈ before, ∃ b, f y = .ok b) ∧ FailsWith p (f x) := by
  induction xs with
  | nil => simp [pure, Except.pure]
  | cons y ys ih =>
    rw [List.mapM_cons, failsWith_bind]
    constructor
    · rintro (hy | ⟨b, hb, h⟩)
      · exact ⟨[], y, ys, rfl, by simp, hy⟩
      rcases failsWith_bind.mp h with h | ⟨bs, -, h⟩
      · obtain ⟨before, x, after, rfl, hbefore, hx⟩ := ih.mp h
        exact ⟨y :: before, x, after, rfl, List.forall_mem_cons.mpr ⟨⟨b, hb⟩, hbefore⟩, hx⟩
      · exact absurd h (not_failsWith_ok _)
    · rintro ⟨before, x, after, hsplit, hbefore, hx⟩
      cases before with
      | nil =>
        cases hsplit
        exact .inl hx
      | cons z before =>
        obtain ⟨rfl, hys⟩ := List.cons_eq_cons.mp hsplit
        obtain ⟨⟨b, hb⟩, hbefore⟩ := List.forall_mem_cons.mp hbefore
        have htail := ih.mpr ⟨before, x, after, hys, hbefore, hx⟩
        exact .inr ⟨b, hb, failsWith_bind.mpr (.inl htail)⟩

end

end Bindery
