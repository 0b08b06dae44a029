/-!
# Successful outcomes

What is known of a computation that succeeded. An outcome is often compared by
its value alone, since that is decidable where the outcome is not.
-/

set_option autoImplicit false

namespace PeerNet

variable {α β ε : Type}

theorem exists_of_map_eq_ok {found : Except ε α} {f : α → β} {result : β}
    (mapped : found.map f = .ok result) : ∃ value, found = .ok value ∧ f value = result := by
  cases found with
  | error fault => cases mapped
  | ok value => exact ⟨value, rfl, Except.ok.inj mapped⟩

theorem exists_of_bind_eq_ok {found : Except ε α} {next : α → Except ε β} {result : β}
    (bound : found >>= next = .ok result) :
    ∃ value, found = .ok value ∧ next value = .ok result := by
  cases found with
  | error fault => cases bound
  | ok value => exact ⟨value, rfl, bound⟩

theorem bind_eq_ok_iff {found : Except ε Unit} {next : Unit → Except ε Unit} :
    found >>= next = .ok () ↔ found = .ok () ∧ next () = .ok () := by
  cases found with
  | error fault => simp [bind, Except.bind]
  | ok value => simp [bind, Except.bind]

theorem exists_eq_ok {found : Except ε α} (success : found.toOption.isSome) :
    ∃ value, found = .ok value := by
  cases found with
  | error fault => cases success
  | ok value => exact ⟨value, rfl⟩

theorem eq_ok_of_toOption {found : Except ε α} {value : α}
    (known : found.toOption = some value) : found = .ok value := by
  cases found with
  | error fault => cases known
  | ok other => rw [Option.some.inj known]

end PeerNet
