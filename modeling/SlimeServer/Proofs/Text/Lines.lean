import SlimeServer.Text.Blank
/-!
# Lines and trimmed texts

A text that was put together from lines is cut into these lines again, and trimming takes the white
space around a body away and nothing of the body.
-/
namespace SlimeServer.Text

def ended (rows : List (List Char)) : List Char := rows.flatMap (· ++ ['\n'])

theorem lines_row {row : List Char} (h : '\n' ∉ row) (rest : List Char) :
    lines (row ++ '\n' :: rest) = row :: lines rest := by
  induction row with
  | nil => exact lines_newline rest
  | cons c row ih =>
    obtain ⟨hc, hrow⟩ := List.ne_and_not_mem_of_not_mem_cons h
    rw [List.cons_append, lines, if_neg hc.symm, ih hrow]

theorem lines_ended {rows : List (List Char)} (h : ∀ row ∈ rows, '\n' ∉ row) (rest : List Char) :
    lines (ended rows ++ rest) = rows ++ lines rest := by
  induction rows with
  | nil => rfl
  | cons row rows ih =>
    obtain ⟨hrow, hrows⟩ := List.forall_mem_cons.1 h
    have hfirst : ended (row :: rows) ++ rest = row ++ '\n' :: (ended rows ++ rest) := by
      simp [ended]
    rw [hfirst, lines_row hrow, ih hrows, List.cons_append]

/-- The first line of a text reaches to the first newline. -/
theorem exists_lines {text : List Char} (hne : text ≠ []) :
    ∃ more, lines text = text.takeWhile (· ≠ '\n') :: more := by
  induction text with
  | nil => exact absurd rfl hne
  | cons c rest ih =>
    by_cases hc : c = '\n'
    · subst hc
      exact ⟨lines rest, lines_newline rest⟩
    · rw [lines, if_neg hc, List.takeWhile_cons_of_pos (by simp [hc])]
      cases rest with
      | nil => exact ⟨[], rfl⟩
      | cons d rest =>
        obtain ⟨more, hmore⟩ := ih (List.cons_ne_nil d rest)
        exact ⟨more, by rw [hmore]⟩

theorem lines_append_newline {text : List Char} (hne : text ≠ [])
    (hlast : text.getLast? ≠ some '\n') : lines (text ++ ['\n']) = lines text := by
  induction text with
  | nil => exact absurd rfl hne
  | cons c rest ih =>
    cases rest with
    | nil =>
      have hc : c ≠ '\n' := by simpa using hlast
      simp [lines, hc]
    | cons d more =>
      have hmore := ih (List.cons_ne_nil d more) (by simpa using hlast)
      rw [List.cons_append, lines, hmore, lines.eq_2 c]

/-- What is trimmed is the white space around a body that neither begins nor ends in any. -/
theorem trimChars_padded {front body back : List Char} (hfront : ∀ c ∈ front, isBlank c = true)
    (hback : ∀ c ∈ back, isBlank c = true) (hhead : ∀ c ∈ body.head?, isBlank c = false)
    (hlast : ∀ c ∈ body.getLast?, isBlank c = false) :
    trimChars (front ++ body ++ back) = body := by
  have hdrop : ∀ text : List Char, (∀ c ∈ text.head?, isBlank c = false) →
      text.dropWhile isBlank = text := by
    intro text htext
    cases text with
    | nil => rfl
    | cons c rest => exact List.dropWhile_cons_of_neg (by simp [htext c rfl])
  have hleft : (front ++ body ++ back).dropWhile isBlank = (body ++ back).dropWhile isBlank := by
    rw [List.append_assoc, List.dropWhile_append_of_pos hfront]
  cases body with
  | nil =>
    have hnone : back.dropWhile isBlank = [] := by
      rw [← List.append_nil back, List.dropWhile_append_of_pos hback, List.dropWhile_nil]
    rw [trimChars, hleft, List.nil_append, hnone]
    rfl
  | cons c body =>
    have hbody : (c :: body ++ back).dropWhile isBlank = c :: body ++ back := hdrop _ hhead
    have hright : ((c :: body) ++ back).reverse.dropWhile isBlank = (c :: body).reverse := by
      rw [List.reverse_append, List.dropWhile_append_of_pos (by simpa using hback), hdrop]
      rwa [List.head?_reverse]
    rw [trimChars, hleft, hbody, hright, List.reverse_reverse]

end SlimeServer.Text
