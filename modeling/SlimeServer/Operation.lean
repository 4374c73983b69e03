/-!
# Operations

An operation works on a state and returns a value, fails, or waits for something that never comes.
Whatever it did to the state before is kept in all three cases.
-/
namespace SlimeServer

/-- Why an operation does not return a value: it failed, or it waits for ever. -/
inductive Stop (ε : Type) where
  | failed (error : ε)
  | stalled
  deriving DecidableEq, Repr

def Stop.map {ε δ : Type} (f : ε → δ) : Stop ε → Stop δ
  | failed error => failed (f error)
  | stalled => stalled

/-- An operation on a state of type `S`. -/
def Op (S ε α : Type) : Type := S → Except (Stop ε) α × S

namespace Op

variable {S ε α β : Type}

instance : Monad (Op S ε) where
  pure a := fun s => (.ok a, s)
  bind op next := fun s =>
    match op s with
    | (.ok a, s) => next a s
    | (.error stop, s) => (.error stop, s)

def get : Op S ε S := fun s => (.ok s, s)

def modify (f : S → S) : Op S ε Unit := fun s => (.ok (), f s)

def fail (error : ε) : Op S ε α := fun s => (.error (.failed error), s)

def stall : Op S ε α := fun s => (.error .stalled, s)

def ofOption (error : ε) (a? : Option α) : Op S ε α :=
  match a? with
  | some a => pure a
  | none => fail error

@[simp] theorem pure_apply (a : α) (s : S) : (pure a : Op S ε α) s = (.ok a, s) := rfl

theorem bind_apply (op : Op S ε α) (next : α → Op S ε β) (s : S) :
    (op >>= next) s =
      match op s with
      | (.ok a, s) => next a s
      | (.error stop, s) => (.error stop, s) := rfl

theorem bind_ok {op : Op S ε α} {next : α → Op S ε β} {s s' : S} {a : α} (h : op s = (.ok a, s')) :
    (op >>= next) s = next a s' := by
  simp [bind_apply, h]

theorem bind_error {op : Op S ε α} {next : α → Op S ε β} {s s' : S} {stop : Stop ε}
    (h : op s = (.error stop, s')) : (op >>= next) s = (.error stop, s') := by
  simp [bind_apply, h]

theorem bind_eq_ok {op : Op S ε α} {next : α → Op S ε β} {s s'' : S} {c : β} :
    (op >>= next) s = (.ok c, s'') ↔
      ∃ a s', op s = (.ok a, s') ∧ next a s' = (.ok c, s'') := by
  rw [bind_apply]
  generalize op s = answer
  obtain ⟨(stop | a), s'⟩ := answer
  · simp
  · constructor
    · exact fun h => ⟨a, s', rfl, h⟩
    · rintro ⟨_, _, h, h'⟩
      cases h
      exact h'

@[simp] theorem get_apply (s : S) : (get : Op S ε S) s = (.ok s, s) := rfl

@[simp] theorem modify_apply (f : S → S) (s : S) : (modify f : Op S ε Unit) s = (.ok (), f s) := rfl

@[simp] theorem fail_apply (error : ε) (s : S) :
    (fail error : Op S ε α) s = (.error (.failed error), s) := rfl

@[simp] theorem stall_apply (s : S) : (stall : Op S ε α) s = (.error .stalled, s) := rfl

instance : LawfulMonad (Op S ε) :=
  LawfulMonad.mk' (Op S ε)
    (fun op => by
      funext s
      change (match op s with
        | (.ok a, s) => (Except.ok a, s)
        | (.error stop, s) => (.error stop, s)) = op s
      generalize op s = answer
      obtain ⟨(_ | _), _⟩ := answer <;> rfl)
    (fun _ _ => rfl)
    (fun op f g => by
      funext s
      simp only [bind_apply]
      generalize op s = answer
      obtain ⟨(_ | _), _⟩ := answer <;> rfl)

end Op
end SlimeServer
