import SlimeServer.Operation
/-!
# Laws and contracts of operations

A law relates the state before an operation to the state after it, in which the operation may wait
for ever. A contract says more of a failure: what is true of the state then may depend on the error.
Two operations match when they do the same from related states. Each of the three holds of an
operation as soon as it holds of its parts.
-/
namespace SlimeServer

/-- A relation between two states, and whether an operation waits for ever in the second one. Doing
nothing keeps it, and so does one operation after another. -/
structure Law (S : Type) where
  holds : S → Bool → S → Prop
  refl : ∀ s, holds s false s
  trans : ∀ {s t u w}, holds s false t → holds t w u → holds s w u

def Law.ofRelation {S : Type} (R : S → S → Prop) (refl : ∀ s, R s s)
    (trans : ∀ {s t u}, R s t → R t u → R s u) : Law S :=
  ⟨fun s _ t => R s t, refl, trans⟩

def Law.waiting {S : Type} (P : S → Prop) : Law S :=
  ⟨fun _ w t => w = true → P t, fun _ h => absurd h Bool.false_ne_true, fun _ h => h⟩

namespace Op

variable {S ε α β : Type} {R : Law S}

theorem fail_bind (error : ε) (next : α → Op S ε β) : (fail error >>= next) = fail error := rfl

def waits : Except (Stop ε) α → Bool
  | .error .stalled => true
  | _ => false

theorem ne_stalled {got : Except (Stop ε) α} (h : waits got = false) : got ≠ .error .stalled := by
  rintro rfl
  cases h

@[simp] theorem waits_mapError {δ : Type} (f : ε → δ) (got : Except (Stop ε) α) :
    waits (got.mapError (Stop.map f)) = waits got := by
  cases got with
  | ok a => rfl
  | error stop => cases stop <;> rfl

@[simp] theorem waits_map (f : α → β) (got : Except (Stop ε) α) :
    waits (got.map f) = waits got := by
  cases got with
  | ok a => rfl
  | error stop => cases stop <;> rfl

def failure? : Except (Stop ε) α → Option ε
  | .error (.failed error) => some error
  | _ => none

def Obeys (R : Law S) (op : Op S ε α) : Prop := ∀ s, R.holds s (waits (op s).1) (op s).2

theorem obeys_pure (a : α) : Obeys R (pure a : Op S ε α) := fun s => R.refl s

theorem obeys_get : Obeys R (get : Op S ε S) := fun s => R.refl s

theorem obeys_fail (error : ε) : Obeys R (fail error : Op S ε α) := fun s => R.refl s

theorem obeys_modify {f : S → S} (h : ∀ s, R.holds s false (f s)) :
    Obeys R (modify f : Op S ε Unit) := h

theorem Obeys.bind {op : Op S ε α} {next : α → Op S ε β} (h : Obeys R op)
    (hn : ∀ a, Obeys R (next a)) : Obeys R (op >>= next) := by
  intro s
  have hs := h s
  rw [bind_apply]
  generalize op s = answer at hs
  obtain ⟨got, t⟩ := answer
  cases got with
  | ok a => exact R.trans hs (hn a t)
  | error stop => cases stop <;> exact hs

end Op

/-- What an operation finds true of the state it works on, and what it leaves true where it returns,
where it fails and where it waits for ever. -/
structure Contract (S ε : Type) where
  kept : S → Prop
  failed : ε → S → Prop
  waiting : S → Prop

namespace Contract

variable {S ε α : Type}

def holds (C : Contract S ε) : Except (Stop ε) α → S → Prop
  | .ok _, s => C.kept s
  | .error (.failed error), s => C.failed error s
  | .error .stalled, s => C.waiting s

end Contract

def Law.contract {S : Type} (R : Law S) (ε : Type) (s : S) : Contract S ε where
  kept t := R.holds s false t
  failed _ t := R.holds s false t
  waiting t := R.holds s true t

namespace Op

variable {S ε α β : Type} {C : Contract S ε}

def Upholds (C : Contract S ε) (op : Op S ε α) : Prop :=
  ∀ s got t, op s = (got, t) → C.kept s → C.holds got t

theorem upholds_pure (a : α) : Upholds C (pure a : Op S ε α) := by
  rintro s _ _ ⟨⟩ hs
  exact hs

theorem upholds_get : Upholds C (get : Op S ε S) := by
  rintro s _ _ ⟨⟩ hs
  exact hs

theorem upholds_modify {f : S → S} (h : ∀ s, C.kept s → C.kept (f s)) :
    Upholds C (modify f : Op S ε Unit) := by
  rintro s _ _ ⟨⟩ hs
  exact h s hs

theorem upholds_fail {error : ε} (h : ∀ s, C.kept s → C.failed error s) :
    Upholds C (fail error : Op S ε α) := by
  rintro s _ _ ⟨⟩ hs
  exact h s hs

theorem upholds_ofOption {error : ε} (h : ∀ s, C.kept s → C.failed error s) (a? : Option α) :
    Upholds C (ofOption error a?) := by
  cases a? with
  | none => exact upholds_fail h
  | some a => exact upholds_pure a

theorem Upholds.bind {op : Op S ε α} {next : α → Op S ε β} (h : Upholds C op)
    (hn : ∀ a, Upholds C (next a)) : Upholds C (op >>= next) := by
  intro s got t hrun hs
  rw [bind_apply] at hrun
  cases hop : op s with
  | mk first s' =>
    have hfirst := h s first s' hop hs
    rw [hop] at hrun
    cases first with
    | ok a => exact hn a s' got t hrun hfirst
    | error stop =>
      cases hrun
      cases stop <;> exact hfirst

theorem holds_contract {R : Law S} {s t : S} {got : Except (Stop ε) α} :
    (R.contract ε s).holds got t ↔ R.holds s (waits got) t := by
  cases got with
  | ok a => exact Iff.rfl
  | error stop => cases stop <;> exact Iff.rfl

theorem obeys_iff_upholds {R : Law S} {op : Op S ε α} :
    Obeys R op ↔ ∀ s, Upholds (R.contract ε s) op := by
  constructor
  · intro h s u got t hrun hsu
    have hut := h u
    rw [hrun] at hut
    exact holds_contract.2 (R.trans hsu hut)
  · intro h s
    exact holds_contract.1 (h s s (op s).1 (op s).2 rfl (R.refl s))

def Returns (P : α → Prop) (op : Op S ε α) : Prop := ∀ s a t, op s = (.ok a, t) → P a

section

variable {P : α → Prop} {Q : β → Prop}

theorem returns_pure {a : α} (h : P a) : Returns P (pure a : Op S ε α) := by
  rintro s _ t ⟨⟩
  exact h

theorem returns_fail (error : ε) : Returns P (fail error : Op S ε α) := by
  rintro s a t ⟨⟩

theorem Returns.bind {op : Op S ε α} {next : α → Op S ε β} (h : Returns P op)
    (hn : ∀ a, P a → Returns Q (next a)) : Returns Q (op >>= next) := by
  intro s b t hrun
  obtain ⟨a, s', hop, hnext⟩ := bind_eq_ok.1 hrun
  exact hn a (h s a s' hop) s' b t hnext

theorem returns_bind {op : Op S ε α} {next : α → Op S ε β} (hn : ∀ a, Returns Q (next a)) :
    Returns Q (op >>= next) := by
  intro s b t hrun
  obtain ⟨a, s', -, hnext⟩ := bind_eq_ok.1 hrun
  exact hn a s' b t hnext

end

def Matches (A : S → S → Prop) (op op' : Op S ε α) : Prop :=
  ∀ s t, A s t → (op s).1 = (op' t).1 ∧ A (op s).2 (op' t).2

section

variable {A : S → S → Prop}

theorem matches_pure (a : α) : Matches A (pure a : Op S ε α) (pure a) := fun _ _ h => ⟨rfl, h⟩

theorem matches_fail (error : ε) : Matches A (fail error : Op S ε α) (fail error) :=
  fun _ _ h => ⟨rfl, h⟩

theorem matches_ofOption (error : ε) (a? : Option α) :
    Matches A (ofOption error a? : Op S ε α) (ofOption error a?) := by
  cases a? with
  | none => exact matches_fail error
  | some a => exact matches_pure a

theorem matches_modify {f g : S → S} (h : ∀ s t, A s t → A (f s) (g t)) :
    Matches A (modify f : Op S ε Unit) (modify g) := fun s t hst => ⟨rfl, h s t hst⟩

theorem Matches.bind {op op' : Op S ε α} {next next' : α → Op S ε β} (h : Matches A op op')
    (hn : ∀ a, Matches A (next a) (next' a)) : Matches A (op >>= next) (op' >>= next') := by
  intro s t hst
  obtain ⟨hout, hleft⟩ := h s t hst
  rw [bind_apply, bind_apply]
  generalize op s = answer at hout hleft
  generalize op' t = answer' at hout hleft
  obtain ⟨got, s'⟩ := answer
  obtain ⟨got', t'⟩ := answer'
  cases hout
  cases got with
  | ok a => exact hn a s' t' hleft
  | error stop => exact ⟨rfl, hleft⟩

theorem matches_get_bind {next next' : S → Op S ε α}
    (h : ∀ s t, A s t → (next s s).1 = (next' t t).1 ∧ A (next s s).2 (next' t t).2) :
    Matches A (get >>= next) (get >>= next') := h

end

end Op
end SlimeServer
