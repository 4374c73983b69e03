import SlimeServer.Config.Toml.Scalar
/-!
# TOML documents

A document is a row of lines: assignments, headers of tables and headers of rows in arrays of
tables. A table is defined once: dotted keys may extend a table only if dotted keys made it, and a
header may name a table that exists only if no more than headers of tables inside it made it.
-/
namespace SlimeServer.Toml

/-- A comment, if there is one, up to the end of its line. -/
def skipComment? : List Char → Option (List Char)
  | '#' :: rest =>
    let after := rest.dropWhile isPlain
    if after.isEmpty || (newline? after).isSome then some after else none
  | text => some text

/-- Spaces, comments and newlines, as they may stand between the parts of an array. -/
def skipAround? : Nat → List Char → Option (List Char)
  | 0, text => some text
  | fuel + 1, text => do
    let text ← skipComment? (skipSpaces text)
    match newline? text with
    | some rest => skipAround? fuel rest
    | none => some text

def skipAll? (text : List Char) : Option (List Char) := skipAround? (text.length + 1) text

def isBareKey (c : Char) : Bool :=
  Numeral.isDigit c || ('a' ≤ c && c ≤ 'z') || ('A' ≤ c && c ≤ 'Z') || c = '-' || c = '_'

def keyPart? (text : List Char) : Option (String × List Char) :=
  match shortString? text with
  | some answer => some answer
  | none =>
    let (name, rest) := text.span isBareKey
    if name.isEmpty then none else some (String.ofList name, rest)

def maxDepth : Nat := 80

/-- The parts of a key, separated by points; at most `count` of them. -/
def keyParts? : Nat → List Char → Option ((List String) × List Char)
  | 0, _ => none
  | count + 1, text => do
    let (part, rest) ← keyPart? (skipSpaces text)
    match skipSpaces rest with
    | '.' :: rest => do
      let (parts, rest) ← keyParts? count rest
      some (part :: parts, rest)
    | rest => some ([part], rest)

def key? (text : List Char) : Option ((List String) × List Char) := keyParts? maxDepth text

/-- How a table came to be. -/
inductive Origin where
  /-- Its own header, or it is the whole document. -/
  | header
  /-- The header of a table inside it. -/
  | implied
  /-- Dotted keys. -/
  | dotted
  deriving DecidableEq, Repr

/-- A document while it is read. Values, inline tables among them, are not extended any more. -/
inductive Node where
  | value (value : Toml)
  | table (origin : Origin) (entries : List (String × Node))
  | rows (rows : List (List (String × Node)))
  deriving Inhabited

abbrev Entries := List (String × Node)

def put (key : String) (node : Node) : Entries → Entries
  | [] => [(key, node)]
  | (k, n) :: rest => if k = key then (k, node) :: rest else (k, n) :: put key node rest

/-- Changes the last row of an array of tables. -/
def onLastRow (change : Entries → Option Entries) : List Entries → Option (List Entries)
  | [] => none
  | [row] => (change row).map fun row => [row]
  | row :: rest => (onLastRow change rest).map (row :: ·)

/-- Changes the table at a path that headers may name, making tables on the way. -/
def onHeaderPath (change : Entries → Option Entries) : List String → Entries → Option Entries
  | [], entries => change entries
  | key :: path, entries => do
    let node ← match entries.lookup key with
      | none => (onHeaderPath change path []).map (Node.table .implied)
      | some (.value _) => none
      | some (.table origin inner) => (onHeaderPath change path inner).map (Node.table origin)
      | some (.rows rows) => (onLastRow (onHeaderPath change path) rows).map Node.rows
    some (put key node entries)

/-- Defines a table by its header. -/
def define (key : String) (entries : Entries) : Option Entries :=
  match entries.lookup key with
  | none => some (put key (.table .header []) entries)
  | some (.table .implied inner) => some (put key (.table .header inner) entries)
  | _ => none

def addRow (key : String) (entries : Entries) : Option Entries :=
  match entries.lookup key with
  | none => some (put key (.rows [[]]) entries)
  | some (.rows rows) => some (put key (.rows (rows ++ [[]])) entries)
  | _ => none

def assignHere (key : String) (value : Toml) (entries : Entries) : Option Entries :=
  match entries.lookup key with
  | none => some (put key (.value value) entries)
  | some _ => none

def assignBelow (value : Toml) : List String → Origin → Entries → Option Entries
  | [], _, _ => none
  | [key], origin, entries =>
    if origin = .dotted then assignHere key value entries else none
  | key :: path, _, entries => do
    let node ← match entries.lookup key with
      | none => (assignBelow value path .dotted []).map (Node.table .dotted)
      | some (.value _) => none
      | some (.table .header _) => none
      | some (.table origin inner) => (assignBelow value path origin inner).map (Node.table origin)
      | some (.rows rows) =>
        (onLastRow (assignBelow value path .header) rows).map Node.rows
    some (put key node entries)

/-- Assigns a value to a key, dotted or not, in a table that keys may be added to. -/
def assign (path : List String) (value : Toml) (entries : Entries) : Option Entries :=
  match path with
  | [key] => assignHere key value entries
  | _ => assignBelow value path .header entries

mutual
def Node.freeze : Node → Toml
  | .value value => value
  | .table _ entries => .table (freezeEntries entries)
  | .rows rows => .array (freezeRows rows)
def freezeEntries : List (String × Node) → List (String × Toml)
  | [] => []
  | (key, node) :: rest => (key, node.freeze) :: freezeEntries rest
def freezeRows : List (List (String × Node)) → List Toml
  | [] => []
  | row :: rest => .table (freezeEntries row) :: freezeRows rest
end

/-- The items of an array after its opening bracket, each read by `item?`. -/
def arrayBody? (item? : List Char → Option (Toml × List Char)) :
    Nat → List Toml → List Char → Option (List Toml × List Char)
  | 0, _, _ => none
  | fuel + 1, got, text => do
    match ← skipAll? text with
    | ']' :: rest => some (got.reverse, rest)
    | text => do
      let (item, rest) ← item? text
      match ← skipAll? rest with
      | ',' :: rest => arrayBody? item? fuel (item :: got) rest
      | ']' :: rest => some ((item :: got).reverse, rest)
      | _ => none

/-- The entries of an inline table after its opening brace. Newlines and comments may stand
wherever spaces may, except within a key. -/
def inlineBody? (item? : List Char → Option (Toml × List Char)) :
    Nat → Entries → List Char → Option (Entries × List Char)
  | 0, _, _ => none
  | fuel + 1, entries, text => do
    match ← skipAll? text with
    | '\x7d' :: rest => some (entries, rest)
    | text => do
      let (path, rest) ← key? text
      let (value, rest) ← item? (← skipAll? (← expect? '=' (← skipAll? rest)))
      let entries ← assign path value entries
      match ← skipAll? rest with
      | ',' :: rest => inlineBody? item? fuel entries rest
      | '\x7d' :: rest => some (entries, rest)
      | _ => none

def scalar? (text : List Char) : Option (Toml × List Char) :=
  match text with
  | '"' :: _ => (string? text).map fun (s, rest) => (.string s, rest)
  | '\'' :: _ => (string? text).map fun (s, rest) => (.string s, rest)
  | _ => bare? text

/-- A value in which arrays and inline tables are nested no deeper than `depth`. -/
def value? : Nat → List Char → Option (Toml × List Char)
  | 0, text => scalar? text
  | depth + 1, text =>
    match text with
    | '[' :: rest =>
      (arrayBody? (value? depth) (rest.length + 1) [] rest).map fun (items, rest) =>
        (.array items, rest)
    | '\x7b' :: rest =>
      (inlineBody? (value? depth) (rest.length + 1) [] rest).map fun (entries, rest) =>
        (.table (freezeEntries entries), rest)
    | _ => scalar? text

inductive Line where
  | blank
  | table (path : List String)
  | row (path : List String)
  | assignment (path : List String) (value : Toml)

/-- The line at the start of a text, up to its newline or comment. -/
def line? (text : List Char) : Option (Line × List Char) :=
  match skipSpaces text with
  | [] => some (.blank, [])
  | '[' :: '[' :: rest => do
    let (path, rest) ← key? rest
    some (.row path, ← expect? ']' (← expect? ']' rest))
  | '[' :: rest => do
    let (path, rest) ← key? rest
    some (.table path, ← expect? ']' rest)
  | c :: rest =>
    if c = '#' ∨ (newline? (c :: rest)).isSome then some (.blank, c :: rest)
    else do
      let (path, rest) ← key? (c :: rest)
      let (value, rest) ← value? maxDepth (skipSpaces (← expect? '=' rest))
      some (.assignment path value, rest)

/-- The text after the end of a line. -/
def endLine? (text : List Char) : Option (List Char) := do
  let rest ← skipComment? (skipSpaces text)
  if rest.isEmpty then some [] else newline? rest

/-- The effect of a line on the document; `here` is the path of the table that assignments go
to. -/
def apply (here : List String) (root : Entries) : Line → Option (List String × Entries)
  | .blank => some (here, root)
  | .table path => do
    let root ← onHeaderPath (define (path.getLast?.getD "")) path.dropLast root
    some (path, root)
  | .row path => do
    let root ← onHeaderPath (addRow (path.getLast?.getD "")) path.dropLast root
    some (path, root)
  | .assignment path value => do
    let root ← onHeaderPath (assign path value) here root
    some (here, root)

def document? : Nat → List String → Entries → List Char → Option Entries
  | 0, _, root, _ => some root
  | fuel + 1, here, root, text =>
    if text.isEmpty then some root
    else do
      let (line, rest) ← line? text
      let (here, root) ← apply here root line
      document? fuel here root (← endLine? rest)

/-- The table that a document holds. A byte-order mark may stand at its start. -/
def parse? (text : String) : Option Toml :=
  let body := match text.toList with
    | '\ufeff' :: rest => rest
    | chars => chars
  (document? (body.length + 1) [] [] body).map fun root => .table (freezeEntries root)

end SlimeServer.Toml
