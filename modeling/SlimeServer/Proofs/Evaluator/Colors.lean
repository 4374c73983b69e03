import SlimeServer.Proofs.Evaluator.Failure
import SlimeServer.Proofs.Text.Color
/-!
# Colours in streamed output

Where colours are not wanted, the escapes are taken out of the text of every piece on its own. An
evaluation that succeeds shows its output without the escapes exactly where no escape is begun in
the text of one piece and ended in a later one.
-/
namespace SlimeServer
namespace Evaluation

variable {σ : Type} {b : Behaviour σ} {l l' : Link σ} {e e' : Evaluation}

theorem eq_conclude_of_settleOutcome (h : e.settleOutcome b l = (.ok e', l')) :
    ∃ outcome, e' = e.conclude outcome := by
  simp only [settleOutcome, Op.bind_eq_ok] at h
  obtain ⟨outcome, _, _, h⟩ := h
  refine ⟨outcome, ?_⟩
  split at h
  · exact absurd h (raise_ne_ok b)
  · simp only [Op.bind_eq_ok, Op.modify_apply, Op.pure_apply, Prod.mk.injEq] at h
    obtain ⟨_, _, _, h, _⟩ := h
    cases h
    rfl

theorem textsOf_conclude (e : Evaluation) (outcome : Outcome) :
    textsOf (e.conclude outcome).queued = textsOf e.queued := by
  obtain ⟨deferring, marked, splitter, queued, finished⟩ := e
  cases outcome <;> cases marked <;> simp [conclude, outcomeItems, textsOf]

/-- The texts of an evaluation that succeeds are those of all pieces up to the token. -/
theorem textsOf_of_success {moments later : List Moment} {first extra : List (List UInt8)}
    {last : List UInt8} {items : List EvalItem} (hq : e.queued = []) (hf : e.finished = false)
    (hc : l.peer.coming = moments ++ later) (hp : l.peer.Pours moments (first ++ last :: extra))
    (hn : ∀ split ∈ (e.splitter.pushAll first).1, split.found = false)
    (hl : ((e.splitter.pushAll first).2.push last).1.found = true)
    (h : e.rest b l = (items, .ok (), l')) :
    textsOf items = textsOf (shown l (e.splitter.pushAll (first ++ [last])).1) := by
  obtain ⟨q₁, left₁, hc₁, hp₁, -, -, hrest⟩ := rest_pieces b hq hf hc hp hn
  obtain ⟨q₂, left₂, hawait, -⟩ := Link.awaitPiece_pours (l := { l with peer := q₁ }) hc₁ hp₁
  rw [hrest,
    rest_found b (e := { e with splitter := (e.splitter.pushAll first).2 }) hq hf hawait hl] at h
  split at h
  · rename_i e' l'' hsettle
    obtain ⟨outcome, rfl⟩ := eq_conclude_of_settleOutcome hsettle
    have hqueued : ({ e with splitter := (e.splitter.pushAll first).2 }.withPiece
        { l with peer := q₁ } last).queued =
          textItems (l.clean ((e.splitter.pushAll first).2.push last).1.text) := by
      rw [withPiece, hq, List.nil_append]
      rfl
    simp only [Prod.mk.injEq] at h
    rw [← h.1, textsOf_append, textsOf_conclude, hqueued, ← textsOf_append,
      Splitter.pushAll_append]
    simp [shown, Splitter.pushAll]
  · simp at h

theorem join_textsOf_shown_stripped (hcolor : l.tuning.color = false) (splits : List Split) :
    (String.join (textsOf (shown l splits))).toList =
      (splits.map fun split => split.text.toList).flatMap Text.stripColorChars := by
  induction splits with
  | nil => rfl
  | cons split splits ih =>
    have hclean : (l.clean split.text).toList = Text.stripColorChars split.text.toList := by
      simp [Link.clean, hcolor, Text.stripColor]
    rw [join_textsOf_shown_cons, String.toList_append, hclean, ih, List.map_cons,
      List.flatMap_cons]

/-- The output of an evaluation that succeeds, without colours: what is shown are the texts of its
pieces, each without the escapes in it. This is the output without its escapes exactly where no
escape is begun in one of these texts and ended in a later one. -/
theorem texts_of_success {moments later : List Moment} {first extra : List (List UInt8)}
    {last : List UInt8} {items : List EvalItem} {form output : String} {port : Nat}
    {l₁ l₂ : Link σ} (heval : Link.eval b form l = (.ok e, l₁))
    (htoken : l₁.token = Utf8.encode (sessionToken port))
    (hfree : Splitter.occurrences l₁.token (Utf8.encode output) = 0)
    (hcolor : l₁.tuning.color = false) (hc : l₁.peer.coming = moments ++ later)
    (hp : l₁.peer.Pours moments (first ++ last :: extra))
    (hcut : first.flatten ++ last = Utf8.encode output ++ l₁.token) (hlast : last ≠ [])
    (h : e.rest b l₁ = (items, .ok (), l₂)) :
    ∃ texts, texts = ((Splitter.start l₁.token).pushAll (first ++ [last])).1.map
        (fun split => split.text.toList) ∧ texts.flatten = output.toList ∧
      (String.join (textsOf items)).toList = texts.flatMap Text.stripColorChars ∧
      (String.join (textsOf items) = Text.stripColor output ↔
        Text.CleanlyCut Text.EscapesWhole texts) := by
  obtain rfl := Link.eq_start_of_eval heval
  have honly : Splitter.OnlyAfter l₁.token (output.toList.flatMap Utf8.encodeChar) [] := by
    rw [htoken] at hfree ⊢
    exact onlyAfter_sessionToken hfree
  obtain ⟨hn, hl, htext⟩ := Splitter.pushAll_output_last honly hcut hlast
  have hitems := textsOf_of_success (e := start l₁ false true) rfl rfl hc hp hn hl h
  have hshown := join_textsOf_shown_stripped hcolor
    ((Splitter.start l₁.token).pushAll (first ++ [last])).1
  generalize htexts : ((Splitter.start l₁.token).pushAll (first ++ [last])).1.map
    (fun split => split.text.toList) = texts at hshown
  have hflatten : texts.flatten = output.toList := by
    rw [← htexts, ← List.flatMap_def]
    exact htext
  have hjoin : (String.join (textsOf items)).toList = texts.flatMap Text.stripColorChars := by
    rw [hitems]
    exact hshown
  have hiff := Text.segmental_stripColorChars.flatMap_eq_iff texts
  refine ⟨texts, rfl, hflatten, hjoin, ?_⟩
  rw [← hiff, ← String.toList_inj, hjoin, hflatten, Text.stripColor, String.toList_ofList]

/-- An evaluator that prints a coloured text in two pieces, cut inside the escape, and then sends a
result. -/
def painting : Behaviour Unit := .answering
  [.output (Utf8.encode "a\x1b[3"), .output (Utf8.encode ("1mb\n" ++ sessionToken 4005)),
    .received (Frame.framed (Utf8.encode "result") ++ Frame.framed (Utf8.encode "nil"))] []

def painted : Link Unit := (Link.eval painting "(paint)" (.fresh 4005)).2

theorem eval_painted :
    Link.eval painting "(paint)" (.fresh 4005) = (.ok (.start painted false true), painted) := rfl

theorem pours_painted : painted.peer.Pours painted.peer.coming
    ([Utf8.encode "a\x1b[3"] ++ [Utf8.encode ("1mb\n" ++ sessionToken 4005)]) :=
  ⟨rfl, rfl, by decide, rfl⟩

theorem rest_painted : ∃ value printed l₂, (start painted false true).rest painting painted =
    ([.text "a\x1b[3", .text "1mb\n", .result value printed, .complete], .ok (), l₂) := by
  have hbegun : textItems (painted.clean "a\x1b[3") = [.text "a\x1b[3"] := by
    have hkept : Text.stripColor "a\x1b[3" = "a\x1b[3" := by
      simp [Text.stripColor, Text.stripColorChars, Text.afterEscape?]
    rw [Link.clean, hkept, ite_self]
    rfl
  have hended : textItems (painted.clean "1mb\n") = [.text "1mb\n"] := by
    rw [clean_of_plain (.inr (by simp [Text.escapeChar]))]
    rfl
  have hfirst : (start painted false true).advance painting painted =
      (.ok { start painted false true with queued := textItems (painted.clean "a\x1b[3") },
        { painted with peer := { painted.peer with coming := painted.peer.coming.drop 1 } }) := rfl
  have hsecond : ∃ value printed l₂, (start painted false true).advance painting
      { painted with peer := { painted.peer with coming := painted.peer.coming.drop 1 } } =
      (.ok { start painted false true with
        queued := textItems (painted.clean "1mb\n") ++ [.result value printed] ++ [.complete]
        finished := true }, l₂) := ⟨_, _, _, rfl⟩
  obtain ⟨value, printed, l₂, hsecond⟩ := hsecond
  refine ⟨value, printed, l₂, ?_⟩
  rw [hbegun] at hfirst
  rw [hended] at hsecond
  rw [rest_of_advance rfl rfl hfirst, rest_queued rfl]
  have hrest := rest_of_advance (b := painting) (e := start painted false true) rfl rfl hsecond
  simp only [start] at hrest ⊢
  rw [hrest, rest_queued rfl, rest_finished rfl rfl]
  rfl

theorem texts_of_success_painted : ∃ texts, texts = ((Splitter.start painted.token).pushAll
      ([Utf8.encode "a\x1b[3"] ++ [Utf8.encode ("1mb\n" ++ sessionToken 4005)])).1.map
        (fun split => split.text.toList) ∧ texts.flatten = "a\x1b[31mb\n".toList ∧
      ∃ items l₂, (start painted false true).rest painting painted = (items, .ok (), l₂) ∧
        (String.join (textsOf items)).toList = texts.flatMap Text.stripColorChars ∧
        (String.join (textsOf items) = Text.stripColor "a\x1b[31mb\n" ↔
          Text.CleanlyCut Text.EscapesWhole texts) := by
  obtain ⟨value, printed, l₂, hrest⟩ := rest_painted
  have hfree : Splitter.occurrences painted.token (Utf8.encode "a\x1b[31mb\n") = 0 := by
    decide +kernel
  obtain ⟨texts, htexts, hflatten, hjoin, hiff⟩ := texts_of_success eval_painted rfl hfree rfl
    (List.append_nil _).symm pours_painted (by decide +kernel) (by decide +kernel) hrest
  exact ⟨texts, htexts, hflatten, _, l₂, hrest, hjoin, hiff⟩

/-- An escape that is cut by the end of a piece is shown. -/
theorem cut_escape_shown : ∃ e l₁ l₂ items,
    Link.eval painting "(paint)" (.fresh 4005) = (.ok e, l₁) ∧
      l₁.token = Utf8.encode (sessionToken 4005) ∧
      Splitter.occurrences l₁.token (Utf8.encode "a\x1b[31mb\n") = 0 ∧
      l₁.tuning.color = false ∧
      l₁.peer.Pours l₁.peer.coming
        ([Utf8.encode "a\x1b[3"] ++ [Utf8.encode ("1mb\n" ++ sessionToken 4005)]) ∧
      [Utf8.encode "a\x1b[3"].flatten ++ Utf8.encode ("1mb\n" ++ sessionToken 4005) =
        Utf8.encode "a\x1b[31mb\n" ++ l₁.token ∧
      e.rest painting l₁ = (items, .ok (), l₂) ∧
      String.join (textsOf items) = "a\x1b[31mb\n" ∧
      Text.stripColor "a\x1b[31mb\n" = "ab\n" := by
  obtain ⟨value, printed, l₂, hrest⟩ := rest_painted
  refine ⟨_, _, l₂, _, eval_painted, rfl, by decide +kernel, rfl, pours_painted,
    by decide +kernel, hrest, rfl, ?_⟩
  simp [Text.stripColor, Text.stripColorChars, Text.afterEscape?, Text.escapeChar]

end Evaluation
end SlimeServer
