import SlimeServer.Proofs.Editor.Operations
import SlimeServer.Proofs.Editor.Run
import SlimeServer.Proofs.Editor.Table
import SlimeServer.Proofs.Evaluator.Evaluation
import SlimeServer.Proofs.Evaluator.Written
import SlimeServer.Proofs.Sexp.RoundTrip
/-!
# Texts in forms

A text that the editor hands over becomes a string literal in a form for the evaluator. Whatever
characters are in it, the form is read as the one that was meant, with the text as one string, and
it is the form that is written.
-/
namespace SlimeServer

namespace Sexp

theorem toList_print (value : Sexp) : value.print.toList = value.printChars :=
  String.toList_ofList

theorem literal_escape (text : List Char) : Literal (escape text) text := by
  induction text with
  | nil => exact .nil
  | cons c rest ih =>
    rw [escape]
    split
    · exact .escaped ih
    · rename_i hc
      obtain ⟨hquote, hbackslash⟩ := not_or.1 hc
      exact .plain hquote hbackslash ih

theorem lexes_string {rest : List Char} {lexemes : List Lexeme} (text : String)
    (h : Lexes rest lexemes) :
    Lexes (printChars (.string text) ++ rest) (.text text.toList :: lexemes) := by
  have hlexes := Lexes.text (literal_escape text.toList) h
  simpa [printChars] using hlexes

theorem datum_string (text : String) : Datum [.text text.toList] (.string text) := by
  have hdatum := Datum.text text.toList
  rwa [String.ofList_toList] at hdatum

theorem lexes_name {name : String} {rest : List Char} {lexemes : List Lexeme}
    (h : ReadableName name) (hrest : ∀ c ∈ rest.head?, endsAtom c = true)
    (hlexes : Lexes rest lexemes) :
    Lexes (name.toList ++ rest) (.atom name.toList :: lexemes) := by
  obtain ⟨hne, hwhole, -⟩ := h
  generalize name.toList = chars at *
  cases chars with
  | nil => exact absurd rfl hne
  | cons c body => exact .atom hwhole hrest hlexes

theorem datum_name {name : String} (h : ReadableName name) :
    Datum [.atom name.toList] (.symbol name) :=
  .atom (denotes_iff.2 h.value_eq)

end Sexp

namespace Handler

open Sexp (Datum Lexes ReadableName)

theorem read_loadForm (path : String) :
    Sexp.read (loadForm path) = .ok (.list [.symbol "load", .string path]) := by
  have hprint : loadForm path = (Sexp.list [.symbol "load", .string path]).print := by
    rw [loadForm, ← String.toList_inj]
    simp [Sexp.print, Sexp.printChars, Sexp.printRest]
  have hback : (Sexp.list [.symbol "load", .string path]).ReadsBack := by
    have hload : ReadableName "load" := Sexp.isAtom_of_all (by decide) (by decide) (by decide)
    simpa [Sexp.readsBack_list] using Sexp.readsBack_symbol_iff.2 hload
  rw [hprint]
  exact hback

theorem lookupCommand_chars (start : String) : (lookupCommand start).toList =
    '(' :: ("mapcar".toList ++ ' ' :: ("#".toList ++ '\'' :: ("string".toList ++ ' ' :: '(' ::
      ("apropos-list".toList ++ ' ' :: (Sexp.printChars (.string start) ++ [')', ')']))))) := by
  have hfront : "(mapcar #'string (apropos-list ".toList = '(' :: ("mapcar".toList ++ ' ' ::
      ("#".toList ++ '\'' :: ("string".toList ++ ' ' :: '(' :: ("apropos-list".toList ++ [' ']))))
      := by decide
  have hback : "))".toList = [')', ')'] := by decide
  unfold lookupCommand
  rw [String.toList_append, String.toList_append, hfront, hback, Sexp.toList_print]
  simp only [List.cons_append, List.append_assoc, List.nil_append]

/-- The text is one literal, and the sharp sign before the quote is a symbol of its own. -/
theorem read_lookupCommand (start : String) :
    Sexp.read (lookupCommand start) = .ok (.list [.symbol "mapcar", .symbol "#",
      .list [.symbol "quote", .symbol "string"],
      .list [.symbol "apropos-list", .string start]]) := by
  have hmapcar : ReadableName "mapcar" := Sexp.isAtom_of_all (by decide) (by decide) (by decide)
  have hsharp : ReadableName "#" := Sexp.isAtom_of_all (by decide) (by decide) (by decide)
  have hstring : ReadableName "string" := Sexp.isAtom_of_all (by decide) (by decide) (by decide)
  have happropos : ReadableName "apropos-list" :=
    Sexp.isAtom_of_all (by decide) (by decide) (by decide)
  refine Sexp.read_eq_ok_iff_spells.2 ⟨_, ?_, .list (.cons (Sexp.datum_name hmapcar)
    (.cons (Sexp.datum_name hsharp) (.cons (.quote (Sexp.datum_name hstring))
      (.cons (.list (.cons (Sexp.datum_name happropos) (.cons (Sexp.datum_string start) .nil)))
        .nil))))⟩
  have hblank : Text.isBlank ' ' = true := by decide
  have hends {c : Char} (rest : List Char) (hc : Sexp.endsAtom c = true) :
      ∀ d ∈ (c :: rest).head?, Sexp.endsAtom d = true := by simpa using hc
  rw [lookupCommand_chars]
  -- Lexeme by lexeme: each name ends where a blank or the quote mark ends an atom.
  refine .opening (Sexp.lexes_name hmapcar (hends _ (by decide)) (.blank hblank ?_))
  refine Sexp.lexes_name hsharp (hends _ (by decide)) (.quote ?_)
  refine Sexp.lexes_name hstring (hends _ (by decide)) (.blank hblank (.opening ?_))
  refine Sexp.lexes_name happropos (hends _ (by decide)) (.blank hblank ?_)
  exact Sexp.lexes_string start (.closing (.closing .nil))

theorem trim_of_parentheses {form : String} {body : List Char} (h : form.toList = '(' :: body)
    (hlast : body.getLast? = some ')') : Text.trim form = form := by
  have hopening : Text.isBlank '(' = false := by decide
  have hclosing : Text.isBlank ')' = false := by decide
  obtain ⟨inner, rfl⟩ := List.getLast?_eq_some_iff.1 hlast
  rw [Text.trim, h, Text.trimChars_of_ends inner hopening hclosing, ← h, String.ofList_toList]

theorem trim_loadForm (path : String) : Text.trim (loadForm path) = loadForm path := by
  have hfront : "(load ".toList = '(' :: "load ".toList := by decide
  have hback : ")".toList = [')'] := by decide
  have hchars : (loadForm path).toList =
      '(' :: ("load ".toList ++ (Sexp.printChars (.string path) ++ [')'])) := by
    rw [loadForm, String.toList_append, String.toList_append, Sexp.toList_print, hfront, hback,
      List.append_assoc, List.cons_append]
  exact trim_of_parentheses hchars (by simp [List.getLast?_cons])

theorem trim_lookupCommand (start : String) :
    Text.trim (lookupCommand start) = lookupCommand start :=
  trim_of_parentheses (lookupCommand_chars start) (by simp [List.getLast?_cons])

section

variable {σ ε α β : Type} {site : Site σ} {line : Channel × String}

/-- Work on an exchange that writes a line to the evaluator at hand, if anything, and asks for call
stacks after it. It writes the line where the link takes it. -/
def Submits (line : Channel × String) (takes : Link σ → Prop) (op : Op (Exchange σ) ε α) : Prop :=
  ∀ x l, x.session.link = some l → ∃ l' lines, (op x).2.session.link = some l' ∧
    l'.peer.sent = l.peer.sent ++ lines ∧ Submission line lines ∧ (takes l → lines ≠ [])

theorem evaluate_submits (site : Site σ) (form : String) :
    Submits (.stdin, Text.trim form) (fun l => (Link.eval site.behaviour form l).1.isOk = true)
      (evaluate site form) := by
  intro x l hx
  -- The form is written by submitting it; following it, where it comes to that, asks for the rest.
  have hsent := Link.writes_eval (b := site.behaviour) form l
  have honLink : onLink (Link.eval site.behaviour form) x = _ := onLink_some hx
  cases heval : Link.eval site.behaviour form l with
  | mk got l₁ =>
    rw [heval] at hsent honLink
    cases got with
    | error stop =>
      refine ⟨l₁, [], ?_, hsent, .refused, fun htakes => ?_⟩
      · rw [evaluate, Op.bind_error honLink]
      · simp only [heval] at htakes
        cases htakes
    | ok e =>
      cases hrest : e.rest site.behaviour l₁ with
      | mk items more =>
        obtain ⟨answer, l₂⟩ := more
        obtain ⟨others, hothers, hstack⟩ := Link.writing_rest (b := site.behaviour) e l₁
        rw [hrest] at hothers
        refine ⟨l₂, (.stdin, Text.trim form) :: others, ?_, ?_, .written hstack,
          fun _ => List.cons_ne_nil _ _⟩
        · rw [evaluate, Op.bind_ok honLink, follow_eq rfl hrest]
        · rw [hothers, hsent, List.append_assoc]
          rfl

/-- What is done with an error or a value does not reach the evaluator. -/
theorem executeOr_submits (site : Site σ) (command : String) (onError : Report → α)
    (onValue : Sexp → α) :
    Submits (.socket, Text.trim command) (fun l => ∃ q, l.Commands site.behaviour command q)
      (executeOr site command (fun report => pure (onError report))
        (fun value => pure (onValue value)) : Handler σ α) := by
  intro x l hx
  obtain ⟨lines, hsent, hlines⟩ := Link.submits_execute (b := site.behaviour) command l
  have hlink : ∃ l', (executeOr site command (fun report => pure (onError report))
      (fun value => pure (onValue value)) x).2.session.link = some l' ∧
        l'.peer = (Link.execute site.behaviour command l).2.peer := by
    rw [executeOr, onLink_some hx]
    cases (Link.execute site.behaviour command l).1 with
    | ok value => exact ⟨_, rfl, rfl⟩
    | error stop =>
      cases stop with
      | stalled => exact ⟨_, rfl, rfl⟩
      | failed report =>
        simp only [Except.mapError, Stop.map]
        split
        · exact ⟨_, rfl, rfl⟩
        · refine ⟨_, rfl, ?_⟩
          rw [Link.acknowledge]
          split <;> rfl
  obtain ⟨l', hl', hpeer⟩ := hlink
  refine ⟨l', lines, hl', hpeer ▸ hsent, hlines, ?_⟩
  rintro ⟨q, hq⟩ rfl
  obtain ⟨others, hothers⟩ := Link.sent_execute_of_commands hq
  rw [hsent] at hothers
  simp at hothers

theorem Submits.bind_pure {takes : Link σ → Prop} {op : Op (Exchange σ) ε α}
    (h : Submits line takes op) (f : α → β) :
    Submits line takes (op >>= fun a => pure (f a)) := by
  intro x l hx
  have hstate : ((op >>= fun a => pure (f a)) x).2 = (op x).2 := by
    rw [Op.bind_apply]
    generalize op x = answer
    obtain ⟨got, y⟩ := answer
    cases got <;> rfl
  rw [hstate]
  exact h x l hx

theorem Submits.mono {takes takes' : Link σ → Prop} {op : Op (Exchange σ) ε α}
    (h : Submits line takes op) (hmono : ∀ l, takes' l → takes l) : Submits line takes' op := by
  intro x l hx
  obtain ⟨l', lines, hl', hsent, hlines, htakes⟩ := h x l hx
  exact ⟨l', lines, hl', hsent, hlines, fun h => htakes (hmono l h)⟩

theorem Submits.request {takes : Link σ → Prop} {r : Request} {operation : EditorOperation}
    (hop : EditorOperation.table.get? r.operation = some operation)
    (h : Submits line takes (operation.handle site r.args)) :
    Submits line takes (handleRequest site r) := by
  intro x l hx
  have hwork := h x l hx
  rw [← workOn_eq hop] at hwork
  have hend := handleRequest_concludes site r x
  generalize handleRequest site r x = answer at hend
  cases hend with
  | replied reply y hy | entered report y hy | refused error y hy _ | waited hy =>
    rw [hy] at hwork
    exact hwork

variable {args : List Sexp} {text : String}
  (htext : (args[0]?.map Sexp.unquote).bind Sexp.designator? = some text)
include htext

theorem compileFile_submits : Submits (.stdin, loadForm text)
    (fun l => (Link.eval site.behaviour (loadForm text) l).1.isOk = true)
    (compileFile site args) := by
  have hsubmits := (evaluate_submits site (loadForm text)).bind_pure
    fun _ => Reply.ok compilationResult
  rw [trim_loadForm] at hsubmits
  rw [compileFile, textArg_some htext, pure_bind]
  exact hsubmits

omit htext in
theorem completions_submits (site : Site σ) (text : String) : Submits (.socket, lookupCommand text)
    (fun l => ∃ q, l.Commands site.behaviour (lookupCommand text) q) (completions site text) := by
  have hsubmits := executeOr_submits site (lookupCommand text) (fun _ => [])
    (candidates text)
  rw [trim_lookupCommand] at hsubmits
  exact hsubmits

theorem simpleCompletions_submits : Submits (.socket, lookupCommand text)
    (fun l => ∃ q, l.Commands site.behaviour (lookupCommand text) q)
    (simpleCompletions site args) := by
  rw [simpleCompletions, textArg_some htext, pure_bind]
  exact (completions_submits site text).bind_pure _

theorem fuzzyCompletions_submits : Submits (.socket, lookupCommand text)
    (fun l => fuzzyMinimum ≤ text.length ∧ ∃ q, l.Commands site.behaviour (lookupCommand text) q)
    (fuzzyCompletions site args) := by
  rw [fuzzyCompletions, textArg_some htext, pure_bind]
  by_cases hshort : text.length < fuzzyMinimum
  · rw [if_pos hshort]
    intro x l hx
    exact ⟨l, [], hx, (List.append_nil _).symm, .refused, fun h => absurd h.1 (Nat.not_le.2 hshort)⟩
  · rw [if_neg hshort]
    intro x l hx
    obtain ⟨l', lines, hl', hsent, hlines, htakes⟩ :=
      (completions_submits site text).bind_pure _ x l hx
    exact ⟨l', lines, hl', hsent, hlines, fun h => htakes h.2⟩

end

/-- Whatever characters a text has, both forms that it is put into are read with the text as one
string in the place that is meant for it, and trimming leaves them alone. Where a request hands the
text over, such a form is all that is written to the evaluator, up to what asks for call stacks. -/
theorem texts_embedded (text : String) :
    (Sexp.read (loadForm text) = .ok (.list [.symbol "load", .string text]) ∧
      Text.trim (loadForm text) = loadForm text) ∧
    (Sexp.read (lookupCommand text) = .ok (.list [.symbol "mapcar", .symbol "#",
        .list [.symbol "quote", .symbol "string"],
        .list [.symbol "apropos-list", .string text]]) ∧
      Text.trim (lookupCommand text) = lookupCommand text) ∧
    ∀ {σ : Type} (site : Site σ) (r : Request),
      (r.args[0]?.map Sexp.unquote).bind Sexp.designator? = some text →
      (EditorOperation.table.get? r.operation = some .compileFile →
        Submits (.stdin, loadForm text)
          (fun l => l.state ≠ .failed ∧ ∃ q, l.peer.Takes site.behaviour (loadForm text) q)
          (handleRequest site r)) ∧
      (EditorOperation.table.get? r.operation = some .simpleCompletions →
        Submits (.socket, lookupCommand text)
          (fun l => ∃ q, l.Commands site.behaviour (lookupCommand text) q)
          (handleRequest site r)) ∧
      (EditorOperation.table.get? r.operation = some .fuzzyCompletions →
        Submits (.socket, lookupCommand text)
          (fun l => 2 ≤ text.length ∧ ∃ q, l.Commands site.behaviour (lookupCommand text) q)
          (handleRequest site r)) := by
  refine ⟨⟨read_loadForm text, trim_loadForm text⟩,
    ⟨read_lookupCommand text, trim_lookupCommand text⟩, ?_⟩
  intro σ site r htext
  refine ⟨fun hop => ?_, fun hop => ?_, fun hop => ?_⟩
  · refine ((compileFile_submits htext).mono ?_).request hop
    rintro l ⟨husable, q, htakes⟩
    rw [Link.eval_takes husable htakes]
    rfl
  · exact (simpleCompletions_submits htext).request hop
  · exact (fuzzyCompletions_submits htext).request hop

def hostilePath : String := "a\") (quit) ;\\\n'("

theorem texts_embedded_hostilePath :
    Sexp.read "(load \"a\\\") (quit) ;\\\\\n'(\")" =
      .ok (.list [.symbol "load", .string hostilePath]) ∧
    ∃ (l : Link Unit) (others : List (Channel × String)),
      (handleRequest (.barren (.answering [] []))
        ⟨"swank:compile-file-for-emacs", [.string hostilePath], none, .truth, 7⟩
        ⟨{ Session.start Config.Layer.empty.resolve with link := some (.fresh 4005) },
          []⟩).2.session.link = some l ∧
      l.peer.sent = (.stdin, "(load \"a\\\") (quit) ;\\\\\n'(\")") :: others := by
  have hform : loadForm hostilePath = "(load \"a\\\") (quit) ;\\\\\n'(\")" := by decide +kernel
  obtain ⟨⟨hread, -⟩, -, hwritten⟩ := texts_embedded hostilePath
  rw [hform] at hread
  obtain ⟨hcompile, -⟩ := hwritten (Site.barren (.answering [] []))
    ⟨"swank:compile-file-for-emacs", [.string hostilePath], none, .truth, 7⟩ rfl
  obtain ⟨l, lines, hlink, hsent, hlines, htaken⟩ := hcompile EditorOperation.get?_compileFile
    ⟨{ Session.start Config.Layer.empty.resolve with link := some (.fresh 4005) }, []⟩ _ rfl
  refine ⟨hread, l, ?_⟩
  cases hlines with
  | refused => exact absurd rfl (htaken ⟨by decide, _, rfl, rfl⟩)
  | written _ => exact ⟨_, hlink, by rw [hsent, hform]; rfl⟩

end Handler
end SlimeServer
