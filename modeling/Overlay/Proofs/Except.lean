/-!
# Values and errors

When a mapped outcome is a value and when it is an error, and the same of two
steps of which the second needs the value of the first.
-/

namespace Except

variable {ε δ α β : Type} {outcome : Except ε α} {error : ε}

theorem map_eq_ok_iff {f : α → β} {value : β} :
    outcome.map f = .ok value ↔ ∃ found, outcome = .ok found ∧ f found = value := by
  cases outcome <;> simp [Except.map]

theorem map_eq_error_iff {f : α → β} : outcome.map f = .error error ↔ outcome = .error error := by
  cases outcome <;> simp [Except.map]

theorem exists_map_eq_ok_iff {f : α → β} :
    (∃ value, outcome.map f = .ok value) ↔ ∃ found, outcome = .ok found := by
  cases outcome <;> simp [Except.map]

theorem mapError_eq_ok_iff {f : ε → δ} {value : α} :
    outcome.mapError f = .ok value ↔ outcome = .ok value := by
  cases outcome with
  | error _ => exact iff_of_false nofun nofun
  | ok _ => exact ⟨fun h => ok.inj h ▸ rfl, fun h => ok.inj h ▸ rfl⟩

theorem mapError_eq_error_iff {f : ε → δ} {fault : δ} :
    outcome.mapError f = .error fault ↔ ∃ error, outcome = .error error ∧ f error = fault := by
  cases outcome with
  | error found =>
    refine ⟨fun h => ⟨found, rfl, error.inj h⟩, ?_⟩
    rintro ⟨_, h, rfl⟩
    obtain rfl := error.inj h
    rfl
  | ok _ => exact iff_of_false nofun (by simp)

theorem bind_eq_ok_iff {next : α → Except ε β} {value : β} :
    (outcome >>= next) = .ok value ↔ ∃ found, outcome = .ok found ∧ next found = .ok value := by
  cases outcome <;> simp [bind, Except.bind]

/-- Of two steps the first that fails decides the error. -/
theorem bind_eq_error_iff {next : α → Except ε β} :
    (outcome >>= next) = .error error ↔
      outcome = .error error ∨ ∃ found, outcome = .ok found ∧ next found = .error error := by
  cases outcome <;> simp [bind, Except.bind]

end Except
