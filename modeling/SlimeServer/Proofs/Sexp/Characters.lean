import SlimeServer.Proofs.Sexp.RoundTrip
/-!
# The characters of a printed value

Beside the strings and names in a value, printing puts only a few characters of its own. The strings
and names were in the text that the value was read from, up to the name `quote`. So what a printed
value shows was in that text, or is one of those few characters.
-/
namespace SlimeServer.Sexp

def ownText : Sexp → List Char
  | .string text => text.toList
  | .symbol name => name.toList
  | _ => []

def marks : List Char := numberChars ++ "nil t()\"\\quote".toList

theorem marks_of_mem {chars : List Char} (h : chars.all marks.contains = true) :
    ∀ c ∈ chars, c ∈ marks :=
  fun c hc => List.contains_iff_mem.1 (List.all_eq_true.1 h c hc)

theorem mem_escape {c : Char} {text : List Char} (h : c ∈ escape text) : c ∈ text ∨ c ∈ marks := by
  induction text with
  | nil => cases h
  | cons d rest ih =>
    rw [escape] at h
    split at h
    · rcases List.mem_cons.1 h with rfl | h
      · exact .inr (by decide)
      · rcases List.mem_cons.1 h with rfl | h
        · exact .inl (List.mem_cons_self ..)
        · exact (ih h).imp_left (List.mem_cons_of_mem d)
    · rcases List.mem_cons.1 h with rfl | h
      · exact .inl (List.mem_cons_self ..)
      · exact (ih h).imp_left (List.mem_cons_of_mem d)

section

variable {c : Char}

mutual
/-- A printed value consists of its strings and names and of few other characters. -/
theorem mem_printChars : ∀ value : Sexp, c ∈ printChars value →
    c ∈ value.leaves.flatMap ownText ∨ c ∈ marks
  | .nil, h | .list [], h => .inr (marks_of_mem (by decide) c h)
  | .truth, h => .inr (marks_of_mem (by decide) c h)
  | .integer n, h => .inr (List.mem_append_left _ (mem_numberChars_of_mem_writeInt h))
  | .float x, h => .inr (List.mem_append_left _ (write_numberChars x c h))
  | .symbol name, h => .inl (by simpa [leaves, ownText, printChars] using h)
  | .string text, h => by
    rw [printChars, List.mem_cons, List.mem_append, List.mem_singleton] at h
    rcases h with rfl | h | rfl
    · exact .inr (by decide)
    · exact (mem_escape h).imp_left fun h => by simpa [leaves, ownText] using h
    · exact .inr (by decide)
  | .list (item :: rest), h => by
    rw [printChars, List.mem_cons, List.mem_append, List.mem_append, List.mem_singleton] at h
    rw [leaves, leavesOf, List.flatMap_append, List.mem_append]
    rcases h with rfl | (h | h) | rfl
    · exact .inr (by decide)
    · exact (mem_printChars item h).imp_left .inl
    · exact (mem_printRest rest h).imp_left .inr
    · exact .inr (by decide)
theorem mem_printRest : ∀ items : List Sexp, c ∈ printRest items →
    c ∈ (leavesOf items).flatMap ownText ∨ c ∈ marks
  | [], h => by cases h
  | item :: rest, h => by
    rw [printRest, List.mem_cons, List.mem_append] at h
    rw [leavesOf, List.flatMap_append, List.mem_append]
    rcases h with rfl | h | h
    · exact .inr (by decide)
    · exact (mem_printChars item h).imp_left .inl
    · exact (mem_printRest rest h).imp_left .inr
end

def Lexeme.chars : Lexeme → List Char
  | text chars | atom chars => chars
  | _ => []

theorem mem_of_literal {body chars : List Char} (h : Literal body chars) (hc : c ∈ chars) :
    c ∈ body := by
  induction h with
  | nil => exact hc
  | plain _ _ _ ih =>
    rcases List.mem_cons.1 hc with rfl | hc
    · exact List.mem_cons_self ..
    · exact List.mem_cons_of_mem _ (ih hc)
  | escaped _ ih =>
    rcases List.mem_cons.1 hc with rfl | hc
    · exact List.mem_cons_of_mem _ (List.mem_cons_self ..)
    · exact List.mem_cons_of_mem _ (List.mem_cons_of_mem _ (ih hc))

/-- The lexemes of a text consist of its characters. -/
theorem mem_of_lexes {text : List Char} {lexemes : List Lexeme} (h : Lexes text lexemes)
    (hc : c ∈ lexemes.flatMap Lexeme.chars) : c ∈ text := by
  induction h with
  | nil => cases hc
  | blank _ _ ih | opening _ ih | closing _ ih | quote _ ih => exact List.mem_cons_of_mem _ (ih hc)
  | comment _ _ _ ih => exact List.mem_cons_of_mem _ (List.mem_append_right _ (ih hc))
  | text hliteral _ ih =>
    rw [List.flatMap_cons, List.mem_append] at hc
    refine List.mem_cons_of_mem _ (List.mem_append.2 ?_)
    rcases hc with hc | hc
    · exact .inl (mem_of_literal hliteral hc)
    · exact .inr (List.mem_cons_of_mem _ (ih hc))
  | atom _ _ _ ih =>
    rw [List.flatMap_cons, List.mem_append] at hc
    rw [← List.cons_append, List.mem_append]
    exact hc.imp_right ih

theorem mem_of_ofAtom {chars : List Char} :
    c ∈ (ofAtom chars).leaves.flatMap ownText → c ∈ chars := by
  fun_cases ofAtom chars <;> simp [leaves, ownText]

mutual
/-- The strings and names in a datum are those of its lexemes, or the name of a quote. -/
theorem mem_of_datum {lexemes : List Lexeme} {value : Sexp} : Datum lexemes value →
    c ∈ value.leaves.flatMap ownText → c ∈ lexemes.flatMap Lexeme.chars ∨ c ∈ marks
  | .atom hdenotes, hc => by
    rw [← denotes_iff.1 hdenotes] at hc
    exact .inl (by simpa [Lexeme.chars] using mem_of_ofAtom hc)
  | .text chars, hc => .inl (by simpa [leaves, ownText, Lexeme.chars] using hc)
  | .empty, hc => by simp [leaves, ownText] at hc
  | .quote hdatum, hc => by
    rw [leaves, leavesOf, leavesOf, leavesOf, List.append_nil, List.flatMap_append,
      List.mem_append] at hc
    rcases hc with hc | hc
    · exact .inr (marks_of_mem (by decide) c hc)
    · exact (mem_of_datum hdatum hc).imp_left id
  | .list hdata, hc => by
    refine (mem_of_data hdata hc).imp_left fun h => ?_
    rw [List.flatMap_cons, List.flatMap_append]
    exact List.mem_append_right _ (List.mem_append_left _ h)
theorem mem_of_data {lexemes : List Lexeme} {items : List Sexp} : Data lexemes items →
    c ∈ (leavesOf items).flatMap ownText → c ∈ lexemes.flatMap Lexeme.chars ∨ c ∈ marks
  | .nil, hc => by cases hc
  | .cons hfirst hmore, hc => by
    rw [leavesOf, List.flatMap_append, List.mem_append] at hc
    rw [List.flatMap_append, List.mem_append]
    rcases hc with hc | hc
    · exact (mem_of_datum hfirst hc).imp_left .inl
    · exact (mem_of_data hmore hc).imp_left .inr
end

theorem mem_of_read {text : String} {value : Sexp} (h : read text = .ok value)
    (hc : c ∈ value.displayText.toList) : c ∈ text.toList ∨ c ∈ marks := by
  obtain ⟨lexemes, hlexes, hdatum⟩ := read_eq_ok_iff_spells.1 h
  have hown : c ∈ value.leaves.flatMap ownText ∨ c ∈ marks := by
    cases value with
    | string shown => exact .inl (by simpa [leaves, ownText, displayText] using hc)
    | _ =>
      rw [displayText, print, String.toList_ofList] at hc
      · exact mem_printChars _ hc
      · exact fun _ => by simp
  rcases hown with hown | hmark
  · exact (mem_of_datum hdatum hown).imp_left (mem_of_lexes hlexes)
  · exact .inr hmark

end

end SlimeServer.Sexp
