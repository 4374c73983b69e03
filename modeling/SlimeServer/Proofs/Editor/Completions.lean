import Mathlib.Data.List.Sort
import SlimeServer.Proofs.Editor.Operations
import SlimeServer.Proofs.Editor.Run
import SlimeServer.Proofs.Editor.Table
import SlimeServer.Proofs.Evaluator.Command
/-!
# Completions

The names in a completion reply enumerate a set: the lower case of every string and symbol in the
value that was looked up, as far as it starts like the text to complete. The enumeration is in
order and has no repeats.
-/
namespace SlimeServer

theorem Sexp.designator?_eq_some_iff {item : Sexp} {text : String} :
    item.designator? = some text ↔ item = .string text ∨ item = .symbol text := by
  cases item <;> simp [Sexp.designator?]

namespace Handler

theorem mem_dropRepeats {name : String} {names : List String} :
    name ∈ dropRepeats names ↔ name ∈ names := by
  fun_induction dropRepeats names with
  | case1 => rfl
  | case2 only => rfl
  | case3 b rest ih =>
    rw [ih]
    simp
  | case4 a b rest hne ih => rw [List.mem_cons, ih, List.mem_cons (a := name) (b := a)]

theorem pairwise_dropRepeats {names : List String} (h : names.Pairwise (· ≤ ·)) :
    (dropRepeats names).Pairwise (· < ·) := by
  fun_induction dropRepeats names with
  | case1 => exact .nil
  | case2 only => exact List.pairwise_singleton _ only
  | case3 b rest ih => exact ih h.of_cons
  | case4 a b rest hne ih =>
    refine List.pairwise_cons.2 ⟨fun name hname => ?_, ih h.of_cons⟩
    have hab : a < b := Std.lt_of_le_of_ne (List.rel_of_pairwise_cons h List.mem_cons_self) hne
    obtain rfl | hrest := List.mem_cons.1 (mem_dropRepeats.1 hname)
    · exact hab
    · exact Std.lt_of_lt_of_le hab (List.rel_of_pairwise_cons h.of_cons hrest)

theorem mem_sortedNames {name : String} {names : List String} :
    name ∈ sortedNames names ↔ name ∈ names := by
  rw [sortedNames, mem_dropRepeats, List.mem_mergeSort]

theorem pairwise_sortedNames (names : List String) : (sortedNames names).Pairwise (· < ·) := by
  have hle : (names.mergeSort fun a b => a ≤ b).Pairwise fun a b => decide (a ≤ b) = true := by
    apply List.pairwise_mergeSort
    · intro a b c hab hbc
      exact decide_eq_true (String.le_trans (of_decide_eq_true hab) (of_decide_eq_true hbc))
    · intro a b
      simpa using String.le_total a b
  exact pairwise_dropRepeats (hle.imp of_decide_eq_true)

/-- The names that complete a text, as a looked-up value lists them: in lower case, each once and in
order. -/
structure Completes (start : String) (found : Sexp) (names : List String) : Prop where
  increasing : names.Pairwise (· < ·)
  mem_iff (name : String) : name ∈ names ↔ ∃ item ∈ found.items?.getD [], ∃ text,
    (item = .string text ∨ item = .symbol text) ∧ Text.lowercase text = name ∧
      (Text.lowercase start).toList <+: name.toList

theorem Completes.unique {start : String} {found : Sexp} {names names' : List String}
    (h : Completes start found names) (h' : Completes start found names') : names = names' :=
  have : Std.Irrefl (α := String) (· < ·) := ⟨String.lt_irrefl⟩
  have : Std.Antisymm (α := String) (· < ·) := ⟨fun _ _ hab hba => absurd hba (String.lt_asymm hab)⟩
  h.increasing.eq_of_mem_iff h'.increasing fun name => (h.mem_iff name).trans (h'.mem_iff name).symm

theorem completes_candidates (start : String) (found : Sexp) :
    Completes start found (candidates start found) where
  increasing := pairwise_sortedNames _
  mem_iff name := by
    simp only [candidates, mem_sortedNames, List.mem_filter, List.mem_map, List.mem_filterMap,
      List.isPrefixOf_iff_prefix, Sexp.designator?_eq_some_iff]
    constructor
    · rintro ⟨⟨text, ⟨item, hitem, htext⟩, hname⟩, hstart⟩
      exact ⟨item, hitem, text, htext, hname, hstart⟩
    · rintro ⟨item, hitem, text, htext, hname, hstart⟩
      exact ⟨⟨text, ⟨item, hitem, htext⟩, hname⟩, hstart⟩

section

variable {σ : Type} {site : Site σ} {x y : Exchange σ} {l l' : Link σ} {start : String}
  {names : List String} {args : List Sexp}

theorem completions_of_value {found : Sexp} (hx : x.session.link = some l)
    (h : Link.execute site.behaviour (lookupCommand start) l = (.ok found, l')) :
    completions site start x =
      (.ok (candidates start found), ⟨{ x.session with link := some l' }, x.sent⟩) := by
  rw [completions, executeOr, onLink_some hx, h]
  rfl

theorem completions_of_error {report : Report} (hx : x.session.link = some l)
    (h : Link.execute site.behaviour (lookupCommand start) l = (.error (.failed report), l'))
    (hfatal : report.fatal = false) :
    completions site start x =
      (.ok [], ⟨{ x.session with link := some { l' with state := .idle } }, x.sent⟩) := by
  -- The state records that the failure was not fatal, so acknowledging it has an effect.
  have hstate : l'.state ≠ .failed := fun hfailed => by
    rw [(Link.recorded_execute _ _ _ _ h).1 hfailed] at hfatal
    cases hfatal
  have hidle : l'.acknowledge = { l' with state := .idle } := if_neg hstate
  rw [completions, executeOr, onLink_some hx, h, ← hidle]
  simp only [Except.mapError, Stop.map, hfatal, Bool.false_eq_true, if_false]
  rfl

theorem simpleCompletions_only {only : String}
    (hstart : (args[0]?.map Sexp.unquote).bind Sexp.designator? = some start)
    (h : completions site start x = (.ok [only], y)) :
    simpleCompletions site args x = (.ok (completionReply [only] only), y) := by
  rw [simpleCompletions, textArg_some hstart, pure_bind, Op.bind_ok h]
  rfl

theorem simpleCompletions_of_ne
    (hstart : (args[0]?.map Sexp.unquote).bind Sexp.designator? = some start)
    (h : completions site start x = (.ok names, y)) (hne : names.length ≠ 1) :
    simpleCompletions site args x = (.ok (completionReply names start), y) := by
  rw [simpleCompletions, textArg_some hstart, pure_bind, Op.bind_ok h]
  match names with
  | [] => rfl
  | [_] => exact absurd rfl hne
  | _ :: _ :: _ => rfl

theorem fuzzyCompletions_eq
    (hstart : (args[0]?.map Sexp.unquote).bind Sexp.designator? = some start)
    (hlong : fuzzyMinimum ≤ start.length) (h : completions site start x = (.ok names, y)) :
    fuzzyCompletions site args x =
      (.ok (completionReply ((completionLimit? args).elim names names.take) start), y) := by
  simp only [fuzzyCompletions, textArg_some hstart, pure_bind, if_neg (Nat.not_lt.2 hlong),
    Op.bind_ok h]
  cases completionLimit? args <;> rfl

theorem completionLimit?_of_nonneg {limit : Int64} (h : args[3]? = some (.integer limit))
    (hlimit : 0 ≤ limit.toInt) : completionLimit? args = some limit.toInt.toNat := by
  simp [completionLimit?, h, Sexp.integer?, hlimit]

theorem completionLimit?_eq_none
    (h : ∀ limit : Int64, args[3]? = some (.integer limit) → limit.toInt < 0) :
    completionLimit? args = none := by
  match hargs : args[3]? with
  | none => simp [completionLimit?, hargs]
  | some value =>
    cases value with
    | integer limit => simp [completionLimit?, hargs, Sexp.integer?, h limit hargs]
    | _ => simp [completionLimit?, hargs, Sexp.integer?]

end

end Handler

section

variable {σ : Type} {site : Site σ} {x : Exchange σ} {l : Link σ} {start : String}
  {names : List String}

/-- A request is answered with names and what they have in common, and the session goes on with a
link. -/
def Completed (site : Site σ) (r : Request) (x : Exchange σ) (l : Link σ) (names : List String)
    (common : String) : Prop :=
  handleRequest site r x = (.ok (), ⟨{ x.session with link := some l }, x.sent ++
    [(Reply.ok (.list [.list (names.map Sexp.string), .string common])).toMessage r.callId]⟩)

variable {r : Request}
  (hstart : (r.args[0]?.map Sexp.unquote).bind Sexp.designator? = some start)
  (h : Handler.completions site start x =
    (.ok names, ⟨{ x.session with link := some l }, x.sent⟩))
include hstart h

theorem completed_only {only : String} (hnames : names = [only])
    (hop : EditorOperation.table.get? r.operation = some .simpleCompletions) :
    Completed site r x l names only := by
  subst hnames
  exact handleRequest_of_reply hop (Handler.simpleCompletions_only hstart h)

theorem completed_simple (hne : names.length ≠ 1)
    (hop : EditorOperation.table.get? r.operation = some .simpleCompletions) :
    Completed site r x l names start :=
  handleRequest_of_reply hop (Handler.simpleCompletions_of_ne hstart h hne)

theorem completed_fuzzy (hlong : 2 ≤ start.length)
    (hop : EditorOperation.table.get? r.operation = some .fuzzyCompletions) :
    Completed site r x l ((Handler.completionLimit? r.args).elim names names.take) start :=
  handleRequest_of_reply hop (Handler.fuzzyCompletions_eq hstart hlong h)

end

/-- An evaluator that answers every look-up with the same names, some of them alike but for the case
of their letters, and with what is no name. -/
def naming : Behaviour Unit := .answering [] [.received (Frame.framed (Utf8.encode "result") ++
  Frame.framed (Utf8.encode "(\"Foo\" FOO bar 7 (\"food\") foobar \"fob\")"))]

def puzzled : Behaviour Unit := .answering []
  [.received (Frame.framed (Utf8.encode "error") ++ Frame.framed (Utf8.encode "Bad start")),
    .output (Utf8.encode (sessionToken 4005))]

def completionExchange : Exchange Unit :=
  ⟨{ Session.start Config.Layer.empty.resolve with link := some (.fresh 4005) }, []⟩

def namingValue : Sexp :=
  .list [.string "Foo", .symbol "FOO", .symbol "bar", .integer 7, .list [.string "food"],
    .symbol "foobar", .string "fob"]

theorem completes_naming : Handler.Completes "Fo" namingValue ["fob", "foo", "foobar"] := by
  have hfound : ((namingValue.items?.getD []).filterMap Sexp.designator?).map Text.lowercase =
      ["foo", "foo", "bar", "foobar", "fob"] := by decide +kernel
  have hsorted :
      Handler.sortedNames ["foo", "foo", "foobar", "fob"] = ["fob", "foo", "foobar"] := by
    simp [Handler.sortedNames, List.mergeSort, List.MergeSort.Internal.splitInTwo,
      Handler.dropRepeats]
  have hcandidates : Handler.candidates "Fo" namingValue = ["fob", "foo", "foobar"] := by
    rw [Handler.candidates, hfound, ← hsorted]
    congr 1
  rw [← hcandidates]
  exact Handler.completes_candidates "Fo" namingValue

def simpleRequest : Request := ⟨"swank:simple-completions", [.string "Fo"], none, .truth, 5⟩

def fuzzyRequest : Request :=
  ⟨"swank:fuzzy-completions", [.string "Fo", .nil, .keyword "limit", .integer 2], none, .truth, 6⟩

end SlimeServer
