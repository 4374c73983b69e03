import SlimeServer.Proofs.Sexp.Grammar
/-!
# The reader recognizes the grammar

The reader does two things at once: it cuts the text into lexemes and it puts the values of the
lexemes together. Both are taken apart here. The first is compared with the rules by which a text
is cut, the second with the rules by which lexemes are one datum.
-/
namespace SlimeServer.Sexp

open Reader

/-- What the reader makes of a character between two tokens: the lexemes it completes and the token
it leaves the reader in. -/
def begin (offset : Nat) (c : Char) : List Lexeme × Token :=
  if Text.isBlank c then ([], .none)
  else if c = ';' then ([], .comment)
  else if c = '(' then ([.opening], .none)
  else if c = ')' then ([.closing], .none)
  else if c = '"' then ([], .text offset [])
  else if c = '\'' then ([.quote], .none)
  else ([], .atom [c])

/-- What the reader makes of a character inside of a token. -/
def shift (offset : Nat) (c : Char) : Token → List Lexeme × Token
  | .none => begin offset c
  | .comment => ([], if c = '\n' then .none else .comment)
  | .atom held =>
    if endsAtom c then (.atom held.reverse :: (begin offset c).1, (begin offset c).2)
    else ([], .atom (c :: held))
  | .text start held =>
    if c = '"' then ([.text held.reverse], .none)
    else if c = '\\' then ([], .escaped start held)
    else ([], .text start (c :: held))
  | .escaped start held => ([], .text start (c :: held))

/-- The lexemes of a text whose beginning was read already, as far as the token that is open. -/
inductive Continues : Token → List Char → List Lexeme → Prop
  | none {text : List Char} {lexemes : List Lexeme} : Lexes text lexemes →
      Continues .none text lexemes
  | comment {body rest : List Char} {lexemes : List Lexeme} : (∀ c ∈ body, c ≠ '\n') →
      (∀ c ∈ rest.head?, c = '\n') → Lexes rest lexemes → Continues .comment (body ++ rest) lexemes
  | atom {held body rest : List Char} {lexemes : List Lexeme} : (∀ d ∈ body, endsAtom d = false) →
      (∀ d ∈ rest.head?, endsAtom d = true) → Lexes rest lexemes →
      Continues (.atom held) (body ++ rest) (.atom (held.reverse ++ body) :: lexemes)
  | text {start : Nat} {held body chars rest : List Char} {lexemes : List Lexeme} :
      Literal body chars → Lexes rest lexemes →
      Continues (.text start held) (body ++ '"' :: rest) (.text (held.reverse ++ chars) :: lexemes)
  | escaped {start : Nat} {held body chars rest : List Char} {c : Char} {lexemes : List Lexeme} :
      Literal body chars → Lexes rest lexemes →
      Continues (.escaped start held) (c :: (body ++ '"' :: rest))
        (.text (held.reverse ++ c :: chars) :: lexemes)

def ended : Token → Option (List Lexeme)
  | .none | .comment => some []
  | .atom held => some [.atom held.reverse]
  | .text .. | .escaped .. => none

section Lexing

variable {c : Char} {rest : List Char} {lexemes : List Lexeme} {offset : Nat}

theorem Continues.atom_cons {held body : List Char} (hbody : ∀ d ∈ body, endsAtom d = false)
    (hend : ∀ d ∈ rest.head?, endsAtom d = true) (hrest : Lexes rest lexemes) :
    Continues (.atom (c :: held)) (body ++ rest)
      (.atom (held.reverse ++ c :: body) :: lexemes) := by
  rw [List.append_cons, ← List.reverse_cons]
  exact .atom hbody hend hrest

theorem Continues.text_cons {start : Nat} {held body chars : List Char} (hbody : Literal body chars)
    (hrest : Lexes rest lexemes) :
    Continues (.text start (c :: held)) (body ++ '"' :: rest)
      (.text (held.reverse ++ c :: chars) :: lexemes) := by
  rw [List.append_cons held.reverse, ← List.reverse_cons]
  exact .text hbody hrest

theorem begin_atom (offset : Nat) (h : endsAtom c = false) : begin offset c = ([], .atom [c]) := by
  simp only [endsAtom, isDelimiter, Bool.or_eq_false_iff, beq_eq_false_iff_ne] at h
  simp [begin, h]

theorem lexes_of_begin (h : Continues (begin offset c).2 rest lexemes) :
    Lexes (c :: rest) ((begin offset c).1 ++ lexemes) := by
  revert h
  fun_cases begin offset c with
  | case1 hblank =>
    intro h
    cases h with
    | none hrest => exact .blank hblank hrest
  | case2 hblank hcomment =>
    intro h
    subst hcomment
    cases h with
    | comment hbody hend hrest => exact .comment hbody hend hrest
  | case3 hblank hcomment hopen =>
    intro h
    subst hopen
    cases h with
    | none hrest => exact .opening hrest
  | case4 hblank hcomment hopen hclose =>
    intro h
    subst hclose
    cases h with
    | none hrest => exact .closing hrest
  | case5 hblank hcomment hopen hclose hquote =>
    intro h
    subst hquote
    cases h with
    | text hbody hrest => exact .text hbody hrest
  | case6 hblank hcomment hopen hclose hquote hmark =>
    intro h
    subst hmark
    cases h with
    | none hrest => exact .quote hrest
  | case7 hblank hcomment hopen hclose hquote hmark =>
    intro h
    have hc : endsAtom c = false := by simp [endsAtom, isDelimiter, *]
    cases h with
    | atom hbody hend hrest => exact .atom (List.forall_mem_cons.2 ⟨hc, hbody⟩) hend hrest

theorem begin_of_lexes (offset : Nat) (h : Lexes (c :: rest) lexemes) :
    ∃ more, lexemes = (begin offset c).1 ++ more ∧ Continues (begin offset c).2 rest more := by
  cases h with
  | blank hblank hrest =>
    rw [begin, if_pos hblank]
    exact ⟨_, rfl, .none hrest⟩
  | comment hbody hend hrest => exact ⟨_, rfl, .comment hbody hend hrest⟩
  | opening hrest => exact ⟨_, rfl, .none hrest⟩
  | closing hrest => exact ⟨_, rfl, .none hrest⟩
  | quote hrest => exact ⟨_, rfl, .none hrest⟩
  | text hbody hrest => exact ⟨_, rfl, .text hbody hrest⟩
  | atom hwhole hend hrest =>
    obtain ⟨hc, hbody⟩ := List.forall_mem_cons.1 hwhole
    rw [begin_atom offset hc]
    exact ⟨_, rfl, .atom hbody hend hrest⟩

theorem continues_of_shift {token : Token}
    (h : Continues (shift offset c token).2 rest lexemes) :
    Continues token (c :: rest) ((shift offset c token).1 ++ lexemes) := by
  revert h
  -- Each case of the definition is the constructor that has the character in front.
  fun_cases shift offset c token with
  | case1 => exact fun h => .none (lexes_of_begin h)
  | case2 =>
    intro h
    split at h
    · rename_i hnewline
      subst hnewline
      cases h with
      | none hrest =>
        have hblank : Lexes ('\n' :: rest) lexemes := .blank (by decide) hrest
        have hend : ∀ d ∈ ('\n' :: rest).head?, d = '\n' := by simp
        rw [← List.nil_append ('\n' :: rest)]
        exact .comment nofun hend hblank
    · rename_i hc
      cases h with
      | comment hbody hend hrest =>
        exact .comment (List.forall_mem_cons.2 ⟨hc, hbody⟩) hend hrest
  | case3 held hends =>
    intro h
    have hend : ∀ d ∈ (c :: rest).head?, endsAtom d = true := by simpa using hends
    rw [← List.nil_append (c :: rest), ← List.append_nil held.reverse]
    exact .atom nofun hend (lexes_of_begin h)
  | case4 held hends =>
    intro h
    cases h with
    | atom hbody hend hrest =>
      rw [List.reverse_cons, List.append_assoc]
      exact .atom (List.forall_mem_cons.2 ⟨by simpa using hends, hbody⟩) hend hrest
  | case5 start held hquote =>
    intro h
    subst hquote
    cases h with
    | none hrest =>
      rw [← List.nil_append ('"' :: rest), ← List.append_nil held.reverse]
      exact .text .nil hrest
  | case6 start held hquote hescape =>
    intro h
    subst hescape
    cases h with
    | escaped hbody hrest => exact .text (.escaped hbody) hrest
  | case7 start held hquote hescape =>
    intro h
    cases h with
    | text hbody hrest =>
      rw [List.reverse_cons, List.append_assoc]
      exact .text (.plain hquote hescape hbody) hrest
  | case8 start held =>
    intro h
    cases h with
    | text hbody hrest =>
      rw [List.reverse_cons, List.append_assoc]
      exact .escaped hbody hrest

theorem shift_of_continues {token : Token} (offset : Nat)
    (h : Continues token (c :: rest) lexemes) :
    ∃ more, lexemes = (shift offset c token).1 ++ more ∧
      Continues (shift offset c token).2 rest more := by
  generalize htext : c :: rest = text at h
  cases h with
  | none h =>
    subst htext
    exact begin_of_lexes offset h
  | @comment body _ _ hbody hend hrest =>
    cases body with
    | nil =>
      subst htext
      have hc : c = '\n' := hend c rfl
      subst hc
      exact begin_of_lexes offset hrest
    | cons d body =>
      cases htext
      obtain ⟨hd, hbody⟩ := List.forall_mem_cons.1 hbody
      rw [shift, if_neg hd]
      exact ⟨_, rfl, .comment hbody hend hrest⟩
  | @atom held body _ _ hbody hend hrest =>
    cases body with
    | nil =>
      subst htext
      obtain ⟨more, rfl, hmore⟩ := begin_of_lexes offset hrest
      have hends : endsAtom c = true := hend c rfl
      rw [shift, if_pos hends, List.append_nil]
      exact ⟨more, rfl, hmore⟩
    | cons d body =>
      cases htext
      obtain ⟨hc, hbody⟩ := List.forall_mem_cons.1 hbody
      rw [shift, if_neg (by simp [hc])]
      exact ⟨_, rfl, .atom_cons hbody hend hrest⟩
  | @text start held _ _ _ _ hbody hrest =>
    cases hbody with
    | nil =>
      cases htext
      rw [List.append_nil]
      exact ⟨_, rfl, .none hrest⟩
    | plain hquote hescape hbody =>
      cases htext
      rw [shift, if_neg hquote, if_neg hescape]
      exact ⟨_, rfl, .text_cons hbody hrest⟩
    | escaped hbody =>
      cases htext
      exact ⟨_, rfl, .escaped hbody hrest⟩
  | @escaped start held _ _ _ _ _ hbody hrest =>
    cases htext
    exact ⟨_, rfl, .text_cons hbody hrest⟩

theorem continues_cons_iff {token : Token} (offset : Nat) :
    Continues token (c :: rest) lexemes ↔ ∃ more,
      lexemes = (shift offset c token).1 ++ more ∧
        Continues (shift offset c token).2 rest more := by
  constructor
  · exact shift_of_continues offset
  · rintro ⟨more, rfl, hmore⟩
    exact continues_of_shift hmore

theorem continues_none_iff {text : List Char} :
    Continues .none text lexemes ↔ Lexes text lexemes := by
  constructor
  · intro h
    cases h with
    | none h => exact h
  · exact .none

theorem lexes_nil_iff : Lexes [] lexemes ↔ lexemes = [] := by
  constructor
  · intro h
    cases h
    rfl
  · rintro rfl
    exact .nil

theorem continues_nil_iff {token : Token} :
    Continues token [] lexemes ↔ ended token = some lexemes := by
  generalize htext : ([] : List Char) = text
  constructor
  · intro h
    cases h with
    | none h =>
      subst htext
      rw [lexes_nil_iff.1 h, ended]
    | comment _ _ hrest =>
      obtain ⟨-, rfl⟩ := List.append_eq_nil_iff.1 htext.symm
      rw [lexes_nil_iff.1 hrest, ended]
    | atom _ _ hrest =>
      obtain ⟨rfl, rfl⟩ := List.append_eq_nil_iff.1 htext.symm
      rw [lexes_nil_iff.1 hrest, ended, List.append_nil]
    | text => simp at htext
    | escaped => simp at htext
  · subst htext
    intro h
    cases token with
    | none =>
      cases h
      exact .none .nil
    | comment =>
      cases h
      have hnil : Continues .comment ([] ++ []) [] := .comment nofun nofun .nil
      exact hnil
    | atom held =>
      cases h
      have hnil : Continues (.atom held) ([] ++ []) [.atom (held.reverse ++ [])] :=
        .atom nofun nofun .nil
      rwa [List.append_nil, List.append_nil] at hnil
    | text => cases h
    | escaped => cases h

end Lexing

abbrev Stack := List Opened × Option Sexp

/-- What a lexeme does. After a complete value there is none. -/
def take : Stack → Lexeme → Option Stack
  | (_, some _), _ => none
  | (opened, none), .opening => some (.list [] :: opened, none)
  | (.list items :: outer, none), .closing => some (deliver (ofItems items.reverse) outer)
  | (_, none), .closing => none
  | (opened, none), .quote => some (.quote :: opened, none)
  | (opened, none), .text chars => some (deliver (.string (String.ofList chars)) opened)
  | (opened, none), .atom chars => some (deliver (ofAtom chars) opened)

def takeAll (stack : Stack) (lexemes : List Lexeme) : Option Stack := lexemes.foldlM take stack

theorem takeAll_append (stack : Stack) (first second : List Lexeme) :
    takeAll stack (first ++ second) = (takeAll stack first).bind (takeAll · second) :=
  List.foldlM_append ..

theorem takeAll_cons (stack : Stack) (lexeme : Lexeme) (rest : List Lexeme) :
    takeAll stack (lexeme :: rest) = (take stack lexeme).bind (takeAll · rest) :=
  List.foldlM_cons ..

/-- The value of lexemes, from where a reader is. -/
def parse (stack : Stack) (lexemes : List Lexeme) : Option Sexp :=
  (takeAll stack lexemes).bind Prod.snd

theorem parse_append (stack : Stack) (first second : List Lexeme) :
    parse stack (first ++ second) = (takeAll stack first).bind (parse · second) := by
  rw [parse, takeAll_append, Option.bind_assoc]
  rfl

theorem parse_complete {opened : List Opened} {value : Sexp} {lexemes : List Lexeme}
    (hne : lexemes ≠ []) : parse (opened, some value) lexemes = none := by
  cases lexemes with
  | nil => exact absurd rfl hne
  | cons lexeme rest => rw [parse, takeAll_cons, take, Option.bind_none, Option.bind_none]

/-- A character that is no white space and begins no comment is part of a lexeme. -/
theorem begin_append_ne_nil {c : Char} {offset : Nat} {rest : List Char} {lexemes : List Lexeme}
    (hblank : ¬ Text.isBlank c = true) (hcomment : c ≠ ';')
    (h : Continues (begin offset c).2 rest lexemes) : (begin offset c).1 ++ lexemes ≠ [] := by
  revert h
  fun_cases begin offset c with
  | case1 hblank' => exact absurd hblank' hblank
  | case2 _ hcomment' => exact absurd hcomment' hcomment
  | case3 => exact fun _ => List.cons_ne_nil _ _
  | case4 => exact fun _ => List.cons_ne_nil _ _
  | case5 =>
    intro h
    cases h with
    | text => exact List.cons_ne_nil _ _
  | case6 => exact fun _ => List.cons_ne_nil _ _
  | case7 =>
    intro h
    cases h with
    | atom => exact List.cons_ne_nil _ _

namespace Reader

variable {r : Reader}

def Settled (r : Reader) : Prop := r.value.isSome = true → r.token = .none ∨ r.token = .comment

def stack (r : Reader) : Stack := (r.opened, r.value)

theorem settled_of_value_none (h : r.value = none) : r.Settled := by
  rw [Settled, h]
  exact nofun

theorem Settled.value_eq_none (h : r.Settled) (hnone : r.token ≠ .none)
    (hcomment : r.token ≠ .comment) : r.value = none := by
  cases hvalue : r.value with
  | none => rfl
  | some value =>
    rcases h (by rw [hvalue]; rfl) with htoken | htoken
    · exact absurd htoken hnone
    · exact absurd htoken hcomment

/-- The reader goes on as the cut says; where it finds a fault, no text that follows makes lexemes
with a value. -/
def Follows (stack : Stack) (cut : List Lexeme × Token) : Except ReadError Reader → Prop
  | .ok next => next.token = cut.2 ∧ takeAll stack cut.1 = some next.stack ∧ next.Settled
  | .error _ => ∀ rest lexemes, Continues cut.2 rest lexemes →
      parse stack (cut.1 ++ lexemes) = none

theorem Follows.cons {stack after : Stack} {lexeme : Lexeme} {cut : List Lexeme × Token}
    {result : Except ReadError Reader} (h : Follows after cut result)
    (htake : take stack lexeme = some after) : Follows stack (lexeme :: cut.1, cut.2) result := by
  cases result with
  | ok next =>
    obtain ⟨htoken, hstack, hsettled⟩ := h
    refine ⟨htoken, ?_, hsettled⟩
    rw [takeAll_cons, htake]
    exact hstack
  | error error =>
    intro rest lexemes hrest
    have hnone := h rest lexemes hrest
    rw [parse] at hnone
    rw [List.cons_append, parse, takeAll_cons, htake]
    exact hnone

theorem follows_between (r : Reader) (c : Char) :
    Follows r.stack (begin r.offset c) (r.between c) := by
  fun_cases Reader.between r c with
  | case1 hblank =>
    rw [begin, if_pos hblank]
    exact ⟨rfl, rfl, fun _ => .inl rfl⟩
  | case2 hblank hcomment =>
    subst hcomment
    exact ⟨rfl, rfl, fun _ => .inr rfl⟩
  | case3 hblank hcomment hvalue =>
  -- Behind a whole value no lexeme can be taken any more.
    intro rest lexemes hrest
    obtain ⟨value, hvalue⟩ := Option.isSome_iff_exists.1 hvalue
    rw [stack, hvalue]
    exact parse_complete (begin_append_ne_nil hblank hcomment hrest)
  | case4 hblank hcomment hvalue hopen =>
    subst hopen
    have hvalue : r.value = none := by simpa using hvalue
    refine ⟨rfl, ?_, settled_of_value_none hvalue⟩
    rw [stack, stack, hvalue]
    rfl
  | case5 hblank hcomment hvalue hopen hclose items outer hopened =>
    subst hclose
    have hvalue : r.value = none := by simpa using hvalue
    refine ⟨rfl, ?_, fun _ => .inl rfl⟩
    rw [stack, hvalue, hopened]
    rfl
  | case6 hblank hcomment hvalue hopen hclose hopened =>
  -- The parenthesis closes nothing.
    subst hclose
    have hvalue : r.value = none := by simpa using hvalue
    intro rest lexemes hrest
    have hnone : take r.stack .closing = none := by
      rw [stack, hvalue, take]
      exact hopened
    change parse r.stack (.closing :: lexemes) = none
    rw [parse, takeAll_cons, hnone, Option.bind_none, Option.bind_none]
  | case7 hblank hcomment hvalue hopen hclose hquote =>
    subst hquote
    have hvalue : r.value = none := by simpa using hvalue
    exact ⟨rfl, rfl, settled_of_value_none hvalue⟩
  | case8 hblank hcomment hvalue hopen hclose hquote hmark =>
    subst hmark
    have hvalue : r.value = none := by simpa using hvalue
    refine ⟨rfl, ?_, settled_of_value_none hvalue⟩
    rw [stack, stack, hvalue]
    rfl
  | case9 hblank hcomment hvalue hopen hclose hquote hmark =>
    have hvalue : r.value = none := by simpa using hvalue
    have hc : endsAtom c = false := by simp [endsAtom, isDelimiter, *]
    rw [begin_atom r.offset hc]
    exact ⟨rfl, rfl, settled_of_value_none hvalue⟩

theorem follows_step (hr : r.Settled) (c : Char) :
    Follows r.stack (shift r.offset c r.token) (r.step c) := by
  fun_cases Reader.step r c with
  | case1 htoken =>
    rw [htoken]
    exact follows_between r c
  | case2 htoken =>
    rw [htoken]
    split
    · rename_i hnewline
      rw [shift, if_pos hnewline]
      exact ⟨rfl, rfl, fun _ => .inl rfl⟩
    · rename_i hc
      rw [shift, if_neg hc]
      exact ⟨htoken, rfl, fun _ => .inr htoken⟩
  | case3 held htoken hends =>
    have hvalue := hr.value_eq_none (by simp [htoken]) (by simp [htoken])
    rw [htoken, shift, if_pos hends]
    refine (follows_between (r.accept (ofAtom held.reverse)) c).cons ?_
    rw [stack, hvalue]
    rfl
  | case4 held htoken hends =>
    have hvalue := hr.value_eq_none (by simp [htoken]) (by simp [htoken])
    rw [htoken, shift, if_neg hends]
    exact ⟨rfl, rfl, settled_of_value_none hvalue⟩
  | case5 start held htoken hquote =>
    have hvalue := hr.value_eq_none (by simp [htoken]) (by simp [htoken])
    rw [htoken, shift, if_pos hquote]
    refine ⟨rfl, ?_, fun _ => .inl rfl⟩
    rw [stack, hvalue]
    rfl
  | case6 start held htoken hquote hescape =>
    have hvalue := hr.value_eq_none (by simp [htoken]) (by simp [htoken])
    rw [htoken, shift, if_neg hquote, if_pos hescape]
    exact ⟨rfl, rfl, settled_of_value_none hvalue⟩
  | case7 start held htoken hquote hescape =>
    have hvalue := hr.value_eq_none (by simp [htoken]) (by simp [htoken])
    rw [htoken, shift, if_neg hquote, if_neg hescape]
    exact ⟨rfl, rfl, settled_of_value_none hvalue⟩
  | case8 start held htoken =>
    have hvalue := hr.value_eq_none (by simp [htoken]) (by simp [htoken])
    rw [htoken]
    exact ⟨rfl, rfl, settled_of_value_none hvalue⟩

def Brings (r : Reader) (text : List Char) (value : Sexp) : Prop :=
  (r.run text >>= finish) = .ok value

theorem brings_cons_iff {r : Reader} {c : Char} {rest : List Char} {value : Sexp} :
    r.Brings (c :: rest) value ↔ ∃ next, r.step c = .ok next ∧
      Brings { next with offset := r.offset + c.utf8Size } rest value := by
  rw [Brings, run, List.foldlM_cons, feed]
  cases r.step c with
  | error error =>
    constructor
    · exact nofun
    · rintro ⟨next, hnext, -⟩
      cases hnext
  | ok moved =>
    constructor
    · exact fun h => ⟨moved, rfl, h⟩
    · rintro ⟨next, hnext, h⟩
      cases hnext
      exact h

theorem whole_eq_ok_iff {r : Reader} {value : Sexp} :
    finish.whole r = .ok value ↔ r.value = some value := by
  rw [finish.whole]
  cases r.value with
  | none => exact ⟨nofun, nofun⟩
  | some other =>
    constructor
    · rintro ⟨⟩
      rfl
    · rintro ⟨⟩
      rfl

theorem brings_nil_iff {r : Reader} {value : Sexp} (hr : r.Settled) :
    r.Brings [] value ↔ ∃ lexemes, Continues r.token [] lexemes ∧
      parse r.stack lexemes = some value := by
  simp only [continues_nil_iff]
  change r.finish = .ok value ↔ _
  rw [finish]
  cases htoken : r.token with
  | none => simp [ended, whole_eq_ok_iff, parse, takeAll, stack]
  | comment => simp [ended, whole_eq_ok_iff, parse, takeAll, stack]
  | atom held =>
    have hvalue := hr.value_eq_none (by simp [htoken]) (by simp [htoken])
    simp [ended, whole_eq_ok_iff, parse, takeAll, take, stack, hvalue, accept]
  | text start held => simp [ended]
  | escaped start held => simp [ended]

theorem brings_iff {r : Reader} {text : List Char} {value : Sexp} (hr : r.Settled) :
    r.Brings text value ↔ ∃ lexemes, Continues r.token text lexemes ∧
      parse r.stack lexemes = some value := by
  induction text generalizing r with
  | nil => exact brings_nil_iff hr
  | cons c rest ih =>
    have hstep := follows_step hr c
    simp only [brings_cons_iff, continues_cons_iff r.offset]
    cases hnext : r.step c with
    | error error =>
      rw [hnext] at hstep
      constructor
      · rintro ⟨next, hok, -⟩
        cases hok
      · rintro ⟨lexemes, ⟨more, rfl, hmore⟩, hparse⟩
        rw [hstep rest more hmore] at hparse
        cases hparse
    | ok next =>
      rw [hnext] at hstep
      obtain ⟨htoken, hstack, hsettled⟩ := hstep
      have hrest := ih (r := { next with offset := r.offset + c.utf8Size }) hsettled
      constructor
      · rintro ⟨moved, hmoved, hbrings⟩
        cases hmoved
        obtain ⟨more, hmore, hparse⟩ := hrest.1 hbrings
        refine ⟨_, ⟨more, rfl, htoken ▸ hmore⟩, ?_⟩
        rw [parse_append, hstack]
        exact hparse
      · rintro ⟨lexemes, ⟨more, rfl, hmore⟩, hparse⟩
        refine ⟨next, rfl, hrest.2 ⟨more, htoken ▸ hmore, ?_⟩⟩
        rw [parse_append, hstack] at hparse
        exact hparse

end Reader

mutual
/-- The lexemes of a value put it where it belongs, whatever is open around it. -/
theorem takeAll_datum {lexemes : List Lexeme} {value : Sexp} (opened : List Opened) :
    Datum lexemes value → takeAll (opened, none) lexemes = some (deliver value opened)
  | .atom hdenotes => by rw [takeAll_cons, take, denotes_iff.1 hdenotes]; rfl
  | .text chars => rfl
  | .quote hdatum => by
    rw [takeAll_cons, take]
    exact takeAll_datum (.quote :: opened) hdatum
  | .empty => rfl
  | .list hdata => by
    have hitems := takeAll_data [] opened hdata
    rw [takeAll_cons, take, Option.bind_some, takeAll_append, hitems, Option.bind_some]
    rw [takeAll_cons, take]
    simp [takeAll, ofItems]
theorem takeAll_data {lexemes : List Lexeme} {items : List Sexp} (held : List Sexp)
    (outer : List Opened) : Data lexemes items →
    takeAll (.list held :: outer, none) lexemes =
      some (.list (items.reverse ++ held) :: outer, none)
  | .nil => rfl
  | .cons hfirst hmore => by
    rw [takeAll_append, takeAll_datum _ hfirst, deliver, Option.bind_some, takeAll_data _ _ hmore]
    rw [List.reverse_cons, List.append_assoc, List.singleton_append]
end

theorem Data.append {first second : List Lexeme} {items more : List Sexp} :
    Data first items → Data second more → Data (first ++ second) (items ++ more)
  | .nil, hsecond => hsecond
  | .cons hitem hrest, hsecond => by
    rw [List.append_assoc]
    exact .cons hitem (hrest.append hsecond)

theorem datum_ofItems {lexemes : List Lexeme} {items : List Sexp} (h : Data lexemes items) :
    Datum (.opening :: (lexemes ++ [.closing])) (ofItems items) := by
  cases items with
  | nil =>
    cases h
    exact .empty
  | cons item rest => exact .list h

/-- The lexemes that have opened what is open. -/
inductive Stacked : List Lexeme → List Opened → Prop
  | nil : Stacked [] []
  | list {before more : List Lexeme} {items : List Sexp} {outer : List Opened} :
      Stacked before outer → Data more items.reverse →
      Stacked (before ++ .opening :: more) (.list items :: outer)
  | quote {before : List Lexeme} {outer : List Opened} : Stacked before outer →
      Stacked (before ++ [.quote]) (.quote :: outer)

def Reached (lexemes : List Lexeme) : Stack → Prop
  | (opened, none) => Stacked lexemes opened
  | (_, some value) => Datum lexemes value

theorem reached_deliver {before lexemes : List Lexeme} {opened : List Opened} {value : Sexp}
    (h : Stacked before opened) (hvalue : Datum lexemes value) :
    Reached (before ++ lexemes) (deliver value opened) := by
  induction h generalizing lexemes value with
  | nil => exact hvalue
  | list houter hdata ih =>
    have hone : Data (lexemes ++ []) [value] := .cons hvalue .nil
    rw [List.append_nil] at hone
    have hitems := hdata.append hone
    rw [← List.reverse_cons] at hitems
    rw [List.append_assoc]
    exact .list houter hitems
  | quote houter ih =>
    rw [List.append_assoc]
    exact ih (.quote hvalue)

theorem reached_take {lexemes : List Lexeme} {lexeme : Lexeme} {stack after : Stack}
    (h : Reached lexemes stack) (htake : take stack lexeme = some after) :
    Reached (lexemes ++ [lexeme]) after := by
  revert htake
  fun_cases take stack lexeme with
  | case1 => exact nofun
  | case2 opened =>
    rintro ⟨⟩
    exact .list h .nil
  | case3 items outer =>
    rintro ⟨⟩
    change Stacked lexemes (.list items :: outer) at h
    cases h with
    | list houter hdata =>
      rw [List.append_assoc]
      exact reached_deliver houter (datum_ofItems hdata)
  | case4 => exact nofun
  | case5 =>
    rintro ⟨⟩
    exact .quote h
  | case6 =>
    rintro ⟨⟩
    exact reached_deliver h (.text _)
  | case7 =>
    rintro ⟨⟩
    exact reached_deliver h (.atom (denotes_ofAtom _))

theorem reached_takeAll {before lexemes : List Lexeme} {stack after : Stack}
    (h : Reached before stack) (htake : takeAll stack lexemes = some after) :
    Reached (before ++ lexemes) after := by
  induction lexemes generalizing before stack with
  | nil =>
    cases htake
    rwa [List.append_nil]
  | cons lexeme rest ih =>
    rw [takeAll_cons] at htake
    obtain ⟨next, hnext, hrest⟩ := Option.bind_eq_some_iff.1 htake
    rw [List.append_cons]
    exact ih (reached_take h hnext) hrest

theorem parse_eq_some_iff {lexemes : List Lexeme} {value : Sexp} :
    parse ([], none) lexemes = some value ↔ Datum lexemes value := by
  constructor
  · intro h
    obtain ⟨⟨opened, whole⟩, htake, hvalue⟩ := Option.bind_eq_some_iff.1 h
    cases hvalue
    have hstart : Reached [] ([], none) := Stacked.nil
    exact reached_takeAll hstart htake
  · intro h
    rw [parse, takeAll_datum [] h]
    rfl

theorem read_eq_ok_iff_spells {text : String} {value : Sexp} :
    read text = .ok value ↔ Spells text value := by
  have hsettled : start.Settled := settled_of_value_none rfl
  have hbrings : read text = .ok value ↔ ∃ lexemes, Continues .none text.toList lexemes ∧
      parse ([], none) lexemes = some value := brings_iff hsettled
  simp only [hbrings, Spells, continues_none_iff, parse_eq_some_iff]

/-- The reader brings a value exactly when the text spells it, and no text spells two values. -/
theorem reader_recognizes_grammar (text : String) (value : Sexp) :
    (read text = .ok value ↔ Spells text value) ∧
      ∀ other, Spells text value → Spells text other → other = value := by
  refine ⟨read_eq_ok_iff_spells, fun other hvalue hother => ?_⟩
  have hread := read_eq_ok_iff_spells.2 hvalue
  have hreread := read_eq_ok_iff_spells.2 hother
  exact Except.ok.inj (hreread.symm.trans hread)

end SlimeServer.Sexp
