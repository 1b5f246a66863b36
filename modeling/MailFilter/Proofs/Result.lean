/-!
# Results

What is known of the parts of a computation that gives a result.
-/

namespace MailFilter

theorem ok_of_bind {ε γ δ : Type} {x : Except ε γ} {f : γ → Except ε δ} {y : δ}
    (h : x >>= f = .ok y) : ∃ a, x = .ok a ∧ f a = .ok y := by
  cases x with
  | error e => cases h
  | ok a => exact ⟨a, rfl, h⟩

theorem eq_ok_of_toOption {ε γ : Type} {x : Except ε γ} {y : γ} (h : x.toOption = some y) :
    x = .ok y := by
  cases x with
  | error e => cases h
  | ok z => exact congrArg _ (Option.some.inj h)

theorem exists_ok_of_isOk {ε γ : Type} {x : Except ε γ} (h : x.isOk = true) : ∃ y, x = .ok y := by
  cases x with
  | error e => cases h
  | ok y => exact ⟨y, rfl⟩

theorem exists_ok_of_forall {ε γ : Type} {x : Except ε γ} {P : γ → Prop} (hok : x.isOk = true)
    (h : ∀ y ∈ x.toOption, P y) : ∃ y, x = .ok y ∧ P y := by
  obtain ⟨y, rfl⟩ := exists_ok_of_isOk hok
  exact ⟨y, rfl, h y rfl⟩

theorem bind_ok_eq_error {ε γ δ : Type} {x : Except ε γ} {f : γ → δ} {e : ε} :
    (x >>= fun a => .ok (f a)) = .error e ↔ x = .error e := by
  cases x with
  | error e' =>
      constructor <;>
      · intro h
        cases h
        rfl
  | ok a => exact iff_of_false nofun nofun

theorem map_eq_error {ε γ δ : Type} {x : Except ε γ} {f : γ → δ} {e : ε} :
    x.map f = .error e ↔ x = .error e := by
  cases x with
  | error e' =>
      constructor <;>
      · intro h
        cases h
        rfl
  | ok a => exact iff_of_false nofun nofun

theorem map_eq_ok {ε γ δ : Type} {x : Except ε γ} {f : γ → δ} {y : δ} :
    x.map f = .ok y ↔ ∃ a, x = .ok a ∧ f a = y := by
  cases x with
  | error e => exact iff_of_false nofun nofun
  | ok a =>
      constructor
      · intro h
        exact ⟨a, rfl, Except.ok.inj h⟩
      · rintro ⟨_, h, rfl⟩
        cases h
        rfl

theorem mapError_eq_error {ε ζ γ : Type} {x : Except ε γ} {f : ε → ζ} {e : ζ} :
    x.mapError f = .error e ↔ ∃ e', x = .error e' ∧ f e' = e := by
  cases x with
  | error e' =>
      constructor
      · intro h
        cases h
        exact ⟨e', rfl, rfl⟩
      · rintro ⟨_, h, rfl⟩
        cases h
        rfl
  | ok a => exact iff_of_false nofun nofun

theorem check_bind_eq_ok {ε δ : Type} {x : Except ε Unit} {f : Unit → Except ε δ} {y : δ} :
    x >>= f = .ok y ↔ x = .ok () ∧ f () = .ok y := by
  cases x with
  | error e => exact iff_of_false nofun nofun
  | ok u => exact (and_iff_right rfl).symm

theorem forM_eq_ok {ε γ : Type} {f : γ → Except ε Unit} {xs : List γ} :
    xs.forM f = .ok () ↔ ∀ x ∈ xs, f x = .ok () := by
  induction xs with
  | nil => exact ⟨fun _ => by simp, fun _ => rfl⟩
  | cons x xs ih =>
      rw [List.forall_mem_cons, ← ih]
      exact check_bind_eq_ok (x := f x)

end MailFilter
