import SlimeServer.Proofs.Sexp.RoundTrip
/-!
# Incomplete and malformed texts

A text that is not read is either incomplete or malformed. An incomplete one can be gone on with so
that it is read: the token it ends in is ended, a value is put in, and the lists that are open are
closed. In a malformed one some character cannot be taken after those before it, and the fault is
reported for that character whatever follows.
-/
namespace SlimeServer

def ReadError.Incomplete : ReadError → Prop
  | unexpectedEof | unterminatedString _ => True
  | _ => False

namespace Sexp

namespace Reader

variable {r next : Reader} {c : Char} {error : ReadError} {text : List Char}

/-- The characters that end a token wherever it is broken off. -/
def endOf : Token → List Char
  | .none => []
  | .comment => ['\n']
  | .atom _ => [' ']
  | .text _ _ => ['"']
  | .escaped _ _ => [' ', '"']

def closersOf : List Opened → List Char
  | [] => []
  | .list _ :: outer => ')' :: closersOf outer
  | .quote :: outer => closersOf outer

theorem run_endOf (r : Reader) :
    ∃ offset opened value, r.run (endOf r.token) = .ok ⟨offset, .none, opened, value⟩ := by
  obtain ⟨offset, token, opened, value⟩ := r
  cases token with
  | none => exact ⟨_, _, _, rfl⟩
  | comment => exact ⟨_, _, _, rfl⟩
  | atom chars => exact ⟨_, _, _, rfl⟩
  | text start chars => exact ⟨_, _, _, rfl⟩
  | escaped start chars => exact ⟨_, _, _, rfl⟩

/-- Once a value has been put in, closing the open lists makes the whole value complete. -/
theorem run_closersOf (opened : List Opened) (value : Sexp) (offset : Nat) :
    ∃ offset' opened' whole,
      run ⟨offset, .none, (deliver value opened).1, (deliver value opened).2⟩ (closersOf opened) =
        .ok ⟨offset', .none, opened', some whole⟩ := by
  induction opened generalizing value offset with
  | nil => exact ⟨offset, [], value, rfl⟩
  | cons innermost outer ih =>
    cases innermost with
    | quote => exact ih (.list [.symbol "quote", value]) offset
    | list items =>
      have hclose : feed ⟨offset, .none, .list (value :: items) :: outer, none⟩ ')' =
          .ok ⟨offset + ')'.utf8Size, .none,
            (deliver (ofItems (value :: items).reverse) outer).1,
            (deliver (ofItems (value :: items).reverse) outer).2⟩ := rfl
      obtain ⟨offset', opened', whole, hrun⟩ :=
        ih (ofItems (value :: items).reverse) (offset + ')'.utf8Size)
      exact ⟨offset', opened', whole, (run_cons hclose _).trans hrun⟩

theorem run_emptyList (opened : List Opened) (offset : Nat) :
    run ⟨offset, .none, opened, none⟩ ['(', ')'] =
      .ok ⟨offset + '('.utf8Size + ')'.utf8Size, .none, (deliver .nil opened).1,
        (deliver .nil opened).2⟩ :=
  rfl

theorem exists_brings (r : Reader) : ∃ more value, r.Brings more value := by
  obtain ⟨offset, opened, value, hend⟩ := run_endOf r
  cases value with
  | some value =>
    refine ⟨endOf r.token, value, ?_⟩
    rw [Brings, hend]
    rfl
  | none =>
    obtain ⟨offset', opened', whole, hclosed⟩ :=
      run_closersOf opened .nil (offset + '('.utf8Size + ')'.utf8Size)
    refine ⟨endOf r.token ++ (['(', ')'] ++ closersOf opened), whole, ?_⟩
    rw [Brings, run_append hend, run_append (run_emptyList opened offset), hclosed]
    rfl

theorem incomplete_of_finish (h : r.finish = .error error) : error.Incomplete := by
  have hwhole : ∀ r : Reader, finish.whole r = .error error → error.Incomplete := by
    intro r h
    rw [finish.whole] at h
    split at h
    · cases h
    · cases h
      trivial
  rw [finish] at h
  split at h
  · cases h
    trivial
  · cases h
    trivial
  · exact hwhole _ h
  · exact hwhole _ h

theorem between_error (h : r.between c = .error error) :
    c = ')' ∧ error = .unexpectedClose r.offset ∨
      error = .trailingInput r.offset ∧ ∃ value, finish.whole r = .ok value := by
  revert h
  fun_cases between r c with
  | case3 hblank hcomment hvalue =>
    intro h
    cases h
    obtain ⟨value, hvalue⟩ := Option.isSome_iff_exists.1 hvalue
    exact .inr ⟨rfl, value, by rw [finish.whole, hvalue]⟩
  | case6 hblank hcomment hvalue hopen hclose hopened =>
    intro h
    cases h
    exact .inl ⟨hclose, rfl⟩
  | _ =>
    intro h
    cases h

/-- A character that cannot be taken is a closing parenthesis that closes nothing, or it stands
behind a whole value. -/
theorem step_error (h : r.step c = .error error) :
    c = ')' ∧ error = .unexpectedClose r.offset ∨
      error = .trailingInput r.offset ∧ ∃ value, r.finish = .ok value := by
  revert h
  fun_cases step r c with
  | case1 htoken =>
    intro h
    rw [finish, htoken]
    exact between_error h
  | case3 chars htoken hends =>
    intro h
    rw [finish, htoken]
    exact between_error h
  | _ =>
    intro h
    cases h

theorem run_eq_error (h : r.run text = .error error) : ∃ before c after next,
    text = before ++ c :: after ∧ r.run before = .ok next ∧ next.step c = .error error := by
  induction text generalizing r with
  | nil => cases h
  | cons c rest ih =>
    cases hstep : r.step c with
    | error found =>
      have hfeed : r.feed c = .error found := by rw [feed, hstep]; rfl
      rw [run, List.foldlM_cons, hfeed] at h
      cases h
      exact ⟨[], c, rest, r, rfl, rfl, hstep⟩
    | ok moved =>
      have hfeed : r.feed c = .ok { moved with offset := r.offset + c.utf8Size } := by
        rw [feed, hstep]
        rfl
      rw [run_cons hfeed] at h
      obtain ⟨before, d, after, next, rfl, hrun, hnext⟩ := ih h
      exact ⟨c :: before, d, after, next, rfl, (run_cons hfeed before).trans hrun, hnext⟩

theorem run_append_error (h : r.run text = .error error) (more : List Char) :
    r.run (text ++ more) = .error error := by
  rw [run] at h
  rw [run, List.foldlM_append, h]
  rfl

theorem offset_feed (h : r.feed c = .ok next) : next.offset = r.offset + c.utf8Size := by
  rw [feed] at h
  cases hstep : r.step c with
  | error error =>
    rw [hstep] at h
    cases h
  | ok moved =>
    rw [hstep] at h
    cases h
    rfl

theorem offset_run (h : r.run text = .ok next) :
    next.offset = r.offset + (String.ofList text).utf8ByteSize := by
  induction text generalizing r with
  | nil =>
    cases h
    rfl
  | cons c rest ih =>
    cases hfeed : r.feed c with
    | error error =>
      rw [run, List.foldlM_cons, hfeed] at h
      cases h
    | ok moved =>
      rw [run_cons hfeed] at h
      rw [ih h, offset_feed hfeed, String.ofList_cons, String.utf8ByteSize_append,
        String.utf8ByteSize_singleton, Nat.add_assoc]

end Reader

open Reader

section

variable {text : String} {error : ReadError}

theorem read_eq_finish {r : Reader} (h : start.run text.toList = .ok r) :
    read text = r.finish := by
  rw [read, readChars, h]
  rfl

theorem read_of_run_error (h : start.run text.toList = .error error) :
    read text = .error error := by
  rw [read, readChars, h]
  rfl

theorem exists_step_error (h : start.run text.toList = .error error) :
    ∃ (before after : String) (c : Char) (r : Reader),
      text = before ++ String.singleton c ++ after ∧ before.utf8ByteSize = r.offset ∧
        read before = r.finish ∧ r.step c = .error error := by
  obtain ⟨before, c, after, r, htext, hrun, hstep⟩ := run_eq_error h
  refine ⟨.ofList before, .ofList after, c, r, ?_, ?_, ?_, hstep⟩
  · rw [← String.ofList_toList (s := text), htext, String.append_assoc, ← String.ofList_cons,
      ← String.ofList_append]
  · have hoffset := offset_run hrun
    rw [hoffset]
    exact (Nat.zero_add _).symm
  · exact read_eq_finish (by rwa [String.toList_ofList])

theorem not_incomplete_of_run (h : start.run text.toList = .error error) : ¬ error.Incomplete := by
  obtain ⟨before, after, c, r, -, -, -, hstep⟩ := exists_step_error h
  rcases step_error hstep with ⟨-, rfl⟩ | ⟨rfl, -⟩ <;> exact id

theorem run_error_of_read (h : read text = .error error) (hfault : ¬ error.Incomplete) :
    start.run text.toList = .error error := by
  cases hrun : start.run text.toList with
  | ok r =>
    rw [read_eq_finish hrun] at h
    exact absurd (incomplete_of_finish h) hfault
  | error found =>
    rw [read_of_run_error hrun] at h
    rw [Except.error.inj h]

theorem read_append_of_fault (h : read text = .error error) (hfault : ¬ error.Incomplete)
    (more : String) : read (text ++ more) = .error error := by
  refine read_of_run_error ?_
  rw [String.toList_append]
  exact run_append_error (run_error_of_read h hfault) more.toList

theorem exists_read_append {r : Reader} (h : start.run text.toList = .ok r) :
    ∃ more value, read (text ++ more) = .ok value := by
  obtain ⟨more, value, hbrings⟩ := exists_brings r
  refine ⟨.ofList more, value, ?_⟩
  rw [read, readChars, String.toList_append, String.toList_ofList, run_append h]
  exact hbrings

/-- A text that is not read is reported as incomplete exactly when it can be gone on with so that it
is read. A closing parenthesis that closes nothing and text behind a whole value are reported alike
whatever follows, at the byte where the parenthesis or that text begins; what is before that text is
read on its own. -/
theorem incomplete_and_malformed (text : String) :
    ((∃ error, read text = .error error ∧ error.Incomplete) ↔
      (∃ error, read text = .error error) ∧ ∃ more value, read (text ++ more) = .ok value) ∧
    (∀ n, read text = .error (.unexpectedClose n) →
      (∀ more, read (text ++ more) = .error (.unexpectedClose n)) ∧
        ∃ before after, text = before ++ ")" ++ after ∧ before.utf8ByteSize = n) ∧
    ∀ n, read text = .error (.trailingInput n) →
      (∀ more, read (text ++ more) = .error (.trailingInput n)) ∧
        ∃ before c after, text = before ++ String.singleton c ++ after ∧
          before.utf8ByteSize = n ∧ ∃ value, read before = .ok value := by
  refine ⟨⟨?_, ?_⟩, fun n h => ⟨read_append_of_fault h id, ?_⟩,
    fun n h => ⟨read_append_of_fault h id, ?_⟩⟩
  · rintro ⟨error, h, hincomplete⟩
    refine ⟨⟨error, h⟩, ?_⟩
    cases hrun : start.run text.toList with
    | ok r => exact exists_read_append hrun
    | error found =>
      rw [read_of_run_error hrun] at h
      cases h
      exact absurd hincomplete (not_incomplete_of_run hrun)
  · rintro ⟨⟨error, h⟩, more, value, hmore⟩
    refine ⟨error, h, Classical.byContradiction fun hfault => ?_⟩
    rw [read_append_of_fault h hfault more] at hmore
    cases hmore
  · obtain ⟨before, after, c, r, htext, hoffset, -, hstep⟩ :=
      exists_step_error (run_error_of_read h id)
    rcases step_error hstep with ⟨rfl, hclose⟩ | ⟨htrailing, -⟩
    · cases hclose
      exact ⟨before, after, htext, hoffset⟩
    · cases htrailing
  · obtain ⟨before, after, c, r, htext, hoffset, hread, hstep⟩ :=
      exists_step_error (run_error_of_read h id)
    rcases step_error hstep with ⟨-, hclose⟩ | ⟨htrailing, value, hvalue⟩
    · cases hclose
    · cases htrailing
      exact ⟨before, c, after, htext, hoffset, value, hread.trans hvalue⟩

end

end Sexp

end SlimeServer
