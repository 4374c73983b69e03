import Mathlib.Logic.Relation
import SlimeServer.Proofs.Text.Color
/-!
# Deleting colour escapes one by one

All colour escapes are taken out of a text in one pass from left to right. That is the same as to
delete the leftmost one for as long as there is one: a deletion leaves nothing before it that could
begin an escape with what comes after it.
-/
namespace SlimeServer.Text

open Relation (ReflTransGen)

/-- Some escape character has an `m` somewhere after it. -/
def Escaped (text : List Char) : Prop :=
  ∃ before after, text = before ++ escapeChar :: after ∧ 'm' ∈ after

inductive Deletes : List Char → List Char → Prop where
  | leftmost {before inside after : List Char} (hbefore : escapeChar ∉ before)
      (hinside : 'm' ∉ inside) :
      Deletes (before ++ escapeChar :: (inside ++ 'm' :: after)) (before ++ after)

section

variable {c : Char} {x y rest : List Char}

theorem exists_escape_cons {p : List Char → Prop} :
    (∃ before after, c :: rest = before ++ escapeChar :: after ∧ p after) ↔
      c = escapeChar ∧ p rest ∨ ∃ before after, rest = before ++ escapeChar :: after ∧ p after := by
  constructor
  · rintro ⟨before, after, h, hp⟩
    cases before with
    | nil =>
      obtain ⟨rfl, rfl⟩ := List.cons.inj h
      exact .inl ⟨rfl, hp⟩
    | cons b before =>
      obtain ⟨-, rfl⟩ := List.cons.inj h
      exact .inr ⟨before, after, rfl, hp⟩
  · rintro (⟨rfl, hp⟩ | ⟨before, after, rfl, hp⟩)
    · exact ⟨[], rest, rfl, hp⟩
    · exact ⟨c :: before, after, rfl, hp⟩

theorem unclosed_iff {text : List Char} :
    Unclosed text ↔ ∃ before after, text = before ++ escapeChar :: after ∧ 'm' ∉ after := by
  induction text with
  | nil => simp [Unclosed]
  | cons c rest ih => rw [Unclosed, ih, exists_escape_cons]

theorem escaped_cons_iff : Escaped (c :: rest) ↔ c = escapeChar ∧ 'm' ∈ rest ∨ Escaped rest :=
  exists_escape_cons

theorem Escaped.mem (h : Escaped x) : 'm' ∈ x := by
  obtain ⟨before, after, rfl, hm⟩ := h
  simp [hm]

theorem Deletes.escaped (h : Deletes x y) : Escaped x := by
  cases h with
  | @leftmost before inside after hbefore hinside =>
    exact ⟨before, inside ++ 'm' :: after, rfl, by simp⟩

theorem Deletes.cons (hc : c ≠ escapeChar) (h : Deletes x y) : Deletes (c :: x) (c :: y) := by
  cases h with
  | @leftmost before inside after hbefore hinside =>
    have hmore : escapeChar ∉ c :: before := by simp [hbefore, Ne.symm hc]
    exact .leftmost hmore hinside

theorem deletes_escape (hm : 'm' ∈ rest) :
    ∃ after, afterEscape? rest = some after ∧ Deletes (escapeChar :: rest) after := by
  obtain ⟨after, hafter⟩ := exists_afterEscape? hm
  obtain ⟨inside, rfl, hinside⟩ := afterEscape?_eq_some hafter
  have hnone : escapeChar ∉ ([] : List Char) := List.not_mem_nil
  exact ⟨after, hafter, .leftmost hnone hinside⟩

/-- There is something to delete exactly where an escape character has an `m` after it. -/
theorem exists_deletes_iff : (∃ y, Deletes x y) ↔ Escaped x := by
  constructor
  · rintro ⟨y, h⟩
    exact h.escaped
  · intro h
    induction x with
    | nil => simp [Escaped] at h
    | cons c rest ih =>
      by_cases hc : c = escapeChar
      · subst hc
        have hm : 'm' ∈ rest := (escaped_cons_iff.1 h).elim And.right Escaped.mem
        obtain ⟨after, -, hdeletes⟩ := deletes_escape hm
        exact ⟨after, hdeletes⟩
      · have hrest : Escaped rest := (escaped_cons_iff.1 h).resolve_left fun hhere => hc hhere.1
        obtain ⟨y, hdeletes⟩ := ih hrest
        exact ⟨c :: y, hdeletes.cons hc⟩

theorem stripColorChars_of_not_mem_m (h : 'm' ∉ x) : stripColorChars x = x := by
  induction x with
  | nil => exact stripColorChars_nil
  | cons c rest ih =>
    have hrest : 'm' ∉ rest := fun hm => h (List.mem_cons_of_mem _ hm)
    by_cases hc : c = escapeChar
    · subst hc
      rw [stripColorChars_unended (afterEscape?_eq_none_iff.2 hrest), ih hrest]
    · rw [stripColorChars_plain hc, ih hrest]

theorem stripColorChars_append_of_closed (h : ¬ Unclosed x) (y : List Char) :
    stripColorChars (x ++ y) = stripColorChars x ++ stripColorChars y :=
  stripColorChars_append fun hopen => absurd hopen h

theorem stripColorChars_behind {before : List Char} (h : escapeChar ∉ before) (rest : List Char) :
    stripColorChars (before ++ rest) = before ++ stripColorChars rest := by
  have hclosed : ¬ Unclosed before := by
    rw [unclosed_iff]
    rintro ⟨front, back, rfl, -⟩
    simp at h
  rw [stripColorChars_append_of_closed hclosed, stripColorChars_of_not_mem h]

theorem Deletes.stripColorChars_eq (h : Deletes x y) : stripColorChars x = stripColorChars y := by
  cases h with
  | @leftmost before inside after hbefore hinside =>
    have hends : afterEscape? (inside ++ 'm' :: after) = some after := by
      rw [afterEscape?_append_of_none (afterEscape?_eq_none_iff.2 hinside), afterEscape?, if_pos rfl]
    rw [stripColorChars_behind hbefore, stripColorChars_behind hbefore, stripColorChars_escape hends]

theorem stripColorChars_eq_of_deletions (h : ReflTransGen Deletes x y) :
    stripColorChars x = stripColorChars y := by
  induction h with
  | refl => rfl
  | tail _ hlast ih => exact ih.trans hlast.stripColorChars_eq

/-- The pass is a row of deletions. -/
theorem deletions_stripColorChars (x : List Char) : ReflTransGen Deletes x (stripColorChars x) := by
  fun_induction stripColorChars x with
  | case1 => exact .refl
  | case2 rest after hafter ih =>
    have hm : 'm' ∈ rest := by
      apply Classical.byContradiction
      intro hnever
      rw [afterEscape?_eq_none_iff.2 hnever] at hafter
      cases hafter
    obtain ⟨after', hafter', hdeletes⟩ := deletes_escape hm
    obtain rfl : after' = after := Option.some.inj (hafter'.symm.trans hafter)
    exact .head hdeletes ih
  | case3 rest hnone =>
    rw [stripColorChars_of_not_mem_m (afterEscape?_eq_none_iff.1 hnone)]
  | case4 c rest hc ih => exact ih.lift (c :: ·) fun _ _ hdeletes => hdeletes.cons hc

theorem not_escaped_stripColorChars (x : List Char) : ¬ Escaped (stripColorChars x) := by
  fun_induction stripColorChars x with
  | case1 => simp [Escaped]
  | case2 rest after hafter ih => exact ih
  | case3 rest hnone ih =>
    have hm : 'm' ∉ stripColorChars rest := by
      rw [stripColorChars_of_not_mem_m (afterEscape?_eq_none_iff.1 hnone)]
      exact afterEscape?_eq_none_iff.1 hnone
    rw [escaped_cons_iff]
    exact fun h => h.elim (fun hhere => hm hhere.2) ih
  | case4 c rest hc ih =>
    rw [escaped_cons_iff]
    exact fun h => h.elim (fun hhere => hc hhere.1) ih

theorem eq_stripColorChars_of_deletions (h : ReflTransGen Deletes x y) (hy : ¬ Escaped y) :
    y = stripColorChars x := by
  have hpass := deletions_stripColorChars y
  rw [stripColorChars_eq_of_deletions h]
  rcases ReflTransGen.cases_head hpass with heq | ⟨z, hdeletes, -⟩
  · exact heq
  · exact absurd hdeletes.escaped hy

theorem stripColorChars_eq_self_iff : stripColorChars x = x ↔ ¬ Escaped x := by
  constructor
  · intro h
    have hleft := not_escaped_stripColorChars x
    rwa [h] at hleft
  · exact fun h => (eq_stripColorChars_of_deletions .refl h).symm

end

section

variable {x y before after : List Char}

theorem exists_isEscape {rest : List Char} (hm : 'm' ∈ rest) :
    ∃ piece after, escapeChar :: rest = piece ++ after ∧ IsEscape piece := by
  obtain ⟨after, hafter⟩ := exists_afterEscape? hm
  obtain ⟨inside, rfl, hinside⟩ := afterEscape?_eq_some hafter
  exact ⟨escapeChar :: (inside ++ ['m']), after, by simp, inside, rfl, hinside⟩

theorem escaped_iff_exists_isEscape :
    Escaped x ↔ ∃ before piece after, x = before ++ (piece ++ after) ∧ IsEscape piece := by
  constructor
  · rintro ⟨before, rest, rfl, hm⟩
    obtain ⟨piece, after, hsplit, hpiece⟩ := exists_isEscape hm
    exact ⟨before, piece, after, by rw [hsplit], hpiece⟩
  · rintro ⟨before, piece, after, rfl, inside, rfl, -⟩
    exact ⟨before, inside ++ ['m'] ++ after, by simp, by simp⟩

theorem length_le_of_isEscape (hbefore : escapeChar ∉ before) {rest front other back : List Char}
    (h : before ++ rest = front ++ (other ++ back)) (hother : IsEscape other) :
    before.length ≤ front.length := by
  obtain ⟨inside, rfl, -⟩ := hother
  rcases List.append_eq_append_iff.1 h with ⟨middle, rfl, -⟩ | ⟨middle, rfl, hmiddle⟩
  · simp
  · cases middle with
    | nil => simp
    | cons c middle =>
      obtain ⟨rfl, -⟩ := List.cons.inj hmiddle
      simp at hbefore

theorem escapeChar_not_mem_of_first {rest : List Char} (hm : 'm' ∈ rest)
    (hfirst : ∀ front other back, before ++ rest = front ++ (other ++ back) →
      IsEscape other → before.length ≤ front.length) : escapeChar ∉ before := by
  intro hmem
  obtain ⟨front, back, rfl⟩ := List.append_of_mem hmem
  obtain ⟨other, more, hsplit, hother⟩ := exists_isEscape (List.mem_append_right back hm)
  have hle := hfirst front other more (by simp [← hsplit]) hother
  simp only [List.length_append, List.length_cons] at hle
  omega

theorem deletes_isEscape {piece : List Char} (hbefore : escapeChar ∉ before)
    (hpiece : IsEscape piece) : Deletes (before ++ (piece ++ after)) (before ++ after) := by
  obtain ⟨inside, rfl, hinside⟩ := hpiece
  have hdeletes : Deletes (before ++ escapeChar :: (inside ++ 'm' :: after)) (before ++ after) :=
    .leftmost hbefore hinside
  rwa [show inside ++ 'm' :: after = inside ++ ['m'] ++ after by simp] at hdeletes

theorem Removes.eq_stripColorChars (h : Removes IsEscape x y) : y = stripColorChars x := by
  induction h with
  | done hnone =>
    refine (stripColorChars_eq_self_iff.2 fun hescaped => ?_).symm
    obtain ⟨before, piece, after, hx, hpiece⟩ := escaped_iff_exists_isEscape.1 hescaped
    exact hnone before piece after hx hpiece
  | @first before piece after rest hpiece hfirst hrest ih =>
    have hm : 'm' ∈ piece ++ after := by
      obtain ⟨inside, rfl, -⟩ := hpiece
      simp
    have hbefore := escapeChar_not_mem_of_first hm hfirst
    rw [(deletes_isEscape hbefore hpiece).stripColorChars_eq, stripColorChars_behind hbefore, ih]

theorem removes_stripColorChars (x : List Char) : Removes IsEscape x (stripColorChars x) := by
  -- What stands behind a match is shorter than the text, and it is done in the same way.
  induction hn : x.length using Nat.strongRecOn generalizing x with
  | ind n ih =>
    by_cases hescaped : Escaped x
    · obtain ⟨y, hdeletes⟩ := exists_deletes_iff.2 hescaped
      obtain @⟨before, inside, after, hbefore, hinside⟩ := hdeletes
      have hpiece : IsEscape (escapeChar :: (inside ++ ['m'])) := ⟨inside, rfl, hinside⟩
      have hsplit : before ++ escapeChar :: (inside ++ 'm' :: after) =
          before ++ (escapeChar :: (inside ++ ['m']) ++ after) := by simp
      have hshorter : after.length < n := by
        rw [← hn]
        simp only [List.length_append, List.length_cons]
        omega
      rw [hsplit, (deletes_isEscape hbefore hpiece).stripColorChars_eq,
        stripColorChars_behind hbefore]
      exact .first hpiece (fun front other back h => length_le_of_isEscape hbefore h)
        (ih _ hshorter after rfl)
    · rw [stripColorChars_eq_self_iff.2 hescaped]
      exact .done fun before piece after hx hpiece =>
        hescaped (escaped_iff_exists_isEscape.2 ⟨before, piece, after, hx, hpiece⟩)

/-- The pass takes out the matches of the pattern from left to right, and nothing else. -/
theorem removes_iff : Removes IsEscape x y ↔ y = stripColorChars x := by
  constructor
  · exact Removes.eq_stripColorChars
  · rintro rfl
    exact removes_stripColorChars x

end

/-- What taking the colour escapes out of a text comes to: deleting the leftmost one until no escape
character has an `m` after it. To do it again changes nothing, nor does it change a text in which no
escape character has an `m` after it, and no other one. Where every escape character has an `m`
after it, what follows the text is done on its own. -/
theorem stripColor_deletions (x : String) :
    (∀ z, ReflTransGen Deletes x.toList z ∧ (∀ y, ¬ Deletes z y) ↔ z = (stripColor x).toList) ∧
      (¬ ∃ before after, (stripColor x).toList = before ++ escapeChar :: after ∧ 'm' ∈ after) ∧
      stripColor (stripColor x) = stripColor x ∧
      (stripColor x = x ↔
        ¬ ∃ before after, x.toList = before ++ escapeChar :: after ∧ 'm' ∈ after) ∧
      ((∀ before after, x.toList = before ++ escapeChar :: after → 'm' ∈ after) →
        ∀ y, stripColor (x ++ y) = stripColor x ++ stripColor y) := by
  have hchars : (stripColor x).toList = stripColorChars x.toList := String.toList_ofList
  have hleft : ¬ Escaped (stripColorChars x.toList) := not_escaped_stripColorChars x.toList
  refine ⟨fun z => ?_, ?_, ?_, ?_, fun hclosed y => ?_⟩
  · rw [← not_exists, exists_deletes_iff, hchars]
    constructor
    · exact fun h => eq_stripColorChars_of_deletions h.1 h.2
    · rintro rfl
      exact ⟨deletions_stripColorChars _, hleft⟩
  · rw [hchars]
    exact hleft
  · rw [stripColor, hchars, stripColorChars_eq_self_iff.2 hleft, stripColor]
  · rw [← String.toList_inj, hchars]
    exact stripColorChars_eq_self_iff
  · have hwhole : ¬ Unclosed x.toList := by
      rw [unclosed_iff]
      rintro ⟨before, after, hx, hnever⟩
      exact hnever (hclosed before after hx)
    rw [← String.toList_inj, String.toList_append, hchars]
    simp only [stripColor, String.toList_ofList, String.toList_append]
    exact stripColorChars_append_of_closed hwhole y.toList

end SlimeServer.Text
