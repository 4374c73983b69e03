import SlimeServer.Proofs.Text.Segments
import SlimeServer.Text.Color
/-!
# Colour escapes and cuts

Taking the colour escapes out of two pieces of a text one by one takes them out of the whole, unless
the cut falls inside an escape: then what has come of it stays in the first piece, and its end in the
second.
-/
namespace SlimeServer.Text

def Unclosed : List Char → Prop
  | [] => False
  | c :: rest => c = escapeChar ∧ 'm' ∉ rest ∨ Unclosed rest

def EscapesWhole (before after : List Char) : Prop := Unclosed before → 'm' ∉ after

section

variable {x y rest after : List Char}

theorem afterEscape?_eq_none_iff {text : List Char} : afterEscape? text = none ↔ 'm' ∉ text := by
  induction text with
  | nil => simp [afterEscape?]
  | cons c rest ih =>
    rw [afterEscape?, List.mem_cons, not_or]
    by_cases hc : c = 'm'
    · simp [hc]
    · simp [hc, ih, Ne.symm hc]

theorem exists_afterEscape? {text : List Char} (h : 'm' ∈ text) :
    ∃ after, afterEscape? text = some after := by
  apply Option.ne_none_iff_exists'.1
  exact fun hnever => afterEscape?_eq_none_iff.1 hnever h

theorem afterEscape?_eq_some {text : List Char} (h : afterEscape? text = some after) :
    ∃ inside, text = inside ++ 'm' :: after ∧ 'm' ∉ inside := by
  induction text with
  | nil => simp [afterEscape?] at h
  | cons c rest ih =>
    rw [afterEscape?] at h
    by_cases hc : c = 'm'
    · rw [if_pos hc, Option.some.injEq] at h
      exact ⟨[], by simp [hc, h], by simp⟩
    · rw [if_neg hc] at h
      obtain ⟨inside, rfl, hinside⟩ := ih h
      exact ⟨c :: inside, rfl, by simp [hinside, Ne.symm hc]⟩

theorem afterEscape?_append_of_some (h : afterEscape? x = some after) (y : List Char) :
    afterEscape? (x ++ y) = some (after ++ y) := by
  induction x with
  | nil => simp [afterEscape?] at h
  | cons c rest ih =>
    rw [afterEscape?] at h
    rw [List.cons_append, afterEscape?]
    by_cases hc : c = 'm'
    · rw [if_pos hc, Option.some.injEq] at h
      rw [if_pos hc, h]
    · rw [if_neg hc] at h ⊢
      exact ih h

theorem afterEscape?_append_of_none (h : afterEscape? x = none) (y : List Char) :
    afterEscape? (x ++ y) = afterEscape? y := by
  induction x with
  | nil => rfl
  | cons c rest ih =>
    rw [afterEscape?] at h
    by_cases hc : c = 'm'
    · rw [if_pos hc] at h
      cases h
    · rw [if_neg hc] at h
      rw [List.cons_append, afterEscape?, if_neg hc, ih h]

theorem stripColorChars_escape (h : afterEscape? rest = some after) :
    stripColorChars (escapeChar :: rest) = stripColorChars after := by
  rw [stripColorChars, if_pos rfl]
  split <;> simp_all

theorem stripColorChars_unended (h : afterEscape? rest = none) :
    stripColorChars (escapeChar :: rest) = escapeChar :: stripColorChars rest := by
  rw [stripColorChars, if_pos rfl]
  split <;> simp_all

theorem stripColorChars_plain {c : Char} (hc : c ≠ escapeChar) (rest : List Char) :
    stripColorChars (c :: rest) = c :: stripColorChars rest := by
  rw [stripColorChars, if_neg hc]

theorem unclosed_append_m (inside after : List Char) :
    Unclosed (inside ++ 'm' :: after) ↔ Unclosed after := by
  induction inside with
  | nil => simp [Unclosed, escapeChar]
  | cons c inside ih => simp [Unclosed, ih]

theorem unclosed_escape (h : afterEscape? rest = some after) :
    Unclosed (escapeChar :: rest) ↔ Unclosed after := by
  obtain ⟨inside, rfl, -⟩ := afterEscape?_eq_some h
  exact unclosed_append_m (escapeChar :: inside) after

theorem unclosed_unended (h : afterEscape? rest = none) : Unclosed (escapeChar :: rest) :=
  .inl ⟨rfl, afterEscape?_eq_none_iff.1 h⟩

theorem unclosed_plain {c : Char} (hc : c ≠ escapeChar) (rest : List Char) :
    Unclosed (c :: rest) ↔ Unclosed rest := by
  simp [Unclosed, hc]

end

/-- Behind the next `m` no more is left of a text than of all of it. -/
theorem length_stripColorChars_after {text after : List Char} (h : afterEscape? text = some after) :
    (stripColorChars after).length ≤ (stripColorChars text).length := by
  fun_induction stripColorChars text with
  | case1 => simp [afterEscape?] at h
  | case2 rest behind hbehind =>
    rw [afterEscape?, if_neg (by decide), hbehind] at h
    cases h
    exact Nat.le_refl _
  | case3 rest hnone =>
    rw [afterEscape?, if_neg (by decide), hnone] at h
    cases h
  | case4 c rest hc ih =>
    rw [List.length_cons]
    by_cases hm : c = 'm'
    · rw [afterEscape?, if_pos hm] at h
      cases h
      omega
    · rw [afterEscape?, if_neg hm] at h
      have hrest := ih h
      omega

/-- At a cut outside of escapes both sides lose their escapes as the whole does. -/
theorem stripColorChars_append {x y : List Char} (h : EscapesWhole x y) :
    stripColorChars (x ++ y) = stripColorChars x ++ stripColorChars y := by
  fun_induction stripColorChars x with
  | case1 => rfl
  | case2 rest after hafter ih =>
    rw [List.cons_append, stripColorChars_escape (afterEscape?_append_of_some hafter y)]
    apply ih
    exact fun hopen => h ((unclosed_escape hafter).2 hopen)
  | case3 rest hnone ih =>
    have hm : 'm' ∉ y := h (unclosed_unended hnone)
    have hnever : afterEscape? (rest ++ y) = none := by
      rw [afterEscape?_append_of_none hnone, afterEscape?_eq_none_iff]
      exact hm
    rw [List.cons_append, stripColorChars_unended hnever, ih fun _ => hm]
    rfl
  | case4 c rest hc ih =>
    rw [List.cons_append, stripColorChars_plain hc, ih fun hopen => h ((unclosed_plain hc rest).2 hopen)]
    rfl

/-- At a cut inside an escape both sides together keep more than the whole. -/
theorem length_stripColorChars_append_lt {x y : List Char} (hx : Unclosed x) (hy : 'm' ∈ y) :
    (stripColorChars (x ++ y)).length < (stripColorChars x).length + (stripColorChars y).length := by
  fun_induction stripColorChars x with
  | case1 => exact hx.elim
  | case2 rest after hafter ih =>
    rw [List.cons_append, stripColorChars_escape (afterEscape?_append_of_some hafter y)]
    exact ih ((unclosed_escape hafter).1 hx)
  | case3 rest hnone =>
    obtain ⟨after, hafter⟩ := exists_afterEscape? hy
    have hends : afterEscape? (rest ++ y) = some after :=
      (afterEscape?_append_of_none hnone y).trans hafter
    have hle := length_stripColorChars_after hafter
    rw [List.cons_append, stripColorChars_escape hends, List.length_cons]
    omega
  | case4 c rest hc ih =>
    have hrest := ih ((unclosed_plain hc rest).1 hx)
    rw [List.cons_append, stripColorChars_plain hc, List.length_cons, List.length_cons]
    omega

theorem segmental_stripColorChars : Segmental stripColorChars EscapesWhole where
  nil := stripColorChars_nil
  clean := stripColorChars_append
  unclean := by
    intro before after h
    rw [EscapesWhole, Classical.not_imp, Classical.not_not] at h
    exact length_stripColorChars_append_lt h.1 h.2

end SlimeServer.Text
