import SlimeServer.Proofs.Sexp.Recognition
import SlimeServer.Sexp.Printer
/-!
# Reading what was printed

A printed value is read back, with `nil` for every empty list in it, as soon as its symbols and
floats are read back as themselves. That is the exact condition on the symbols, because the reader
never brings a symbol whose name would be read as anything else.
-/
namespace SlimeServer.Sexp

structure IsAtom (chars : List Char) (value : Sexp) : Prop where
  ne_nil : chars ≠ []
  whole : ∀ c ∈ chars, endsAtom c = false
  value_eq : ofAtom chars = value

/-- A name that is read as the symbol of that name: it is not empty, has no white space and no
delimiter in it, and is neither `nil` nor `t` nor a number. -/
def ReadableName (name : String) : Prop := IsAtom name.toList (.symbol name)

theorem isAtom_of_all {chars : List Char} {value : Sexp} (hne : chars ≠ [])
    (hwhole : chars.all (fun c => !endsAtom c) = true) (hv : ofAtom chars = value) :
    IsAtom chars value :=
  ⟨hne, fun c hc => by simpa using List.all_eq_true.1 hwhole c hc, hv⟩

theorem isAtom_nil : IsAtom ['n', 'i', 'l'] .nil :=
  isAtom_of_all (by decide) (by decide) (by decide)

theorem isAtom_truth : IsAtom ['t'] .truth :=
  isAtom_of_all (by decide) (by decide) (by decide)

mutual
/-- The values in a value that are not lists. -/
def leaves : Sexp → List Sexp
  | .list items => leavesOf items
  | value => [value]
def leavesOf : List Sexp → List Sexp
  | [] => []
  | item :: rest => leaves item ++ leavesOf rest
end

mutual
/-- The value with `nil` in the place of every empty list. -/
def normal : Sexp → Sexp
  | .list items => ofItems (normalOf items)
  | value => value
def normalOf : List Sexp → List Sexp
  | [] => []
  | item :: rest => normal item :: normalOf rest
end

mutual
/-- The value with every symbol and every float read once more, from its own text. -/
def reread : Sexp → Sexp
  | .list items => ofItems (rereadOf items)
  | .symbol name => ofAtom name.toList
  | .float x => ofAtom x.write
  | value => value
def rereadOf : List Sexp → List Sexp
  | [] => []
  | item :: rest => reread item :: rereadOf rest
end

def numberChars : List Char := "0123456789-.eNaninf".toList

theorem numberChars_of_all {chars : List Char} (h : chars.all numberChars.contains = true) :
    ∀ c ∈ chars, c ∈ numberChars :=
  fun c hc => List.contains_iff_mem.1 (List.all_eq_true.1 h c hc)

theorem mem_numberChars_of_isDigit {c : Char} (h : Numeral.isDigit c = true) :
    c ∈ numberChars := by
  obtain ⟨hlow, hhigh⟩ := Numeral.isDigit_iff.1 h
  have hall : ∀ n < 58, 48 ≤ n → Char.ofNat n ∈ numberChars := by decide
  have hc := hall c.toNat (by omega) hlow
  rwa [Char.ofNat_toNat] at hc

theorem mem_numberChars_of_mem_writeNat {n : Nat} {c : Char} (h : c ∈ Numeral.writeNat n) :
    c ∈ numberChars :=
  mem_numberChars_of_isDigit (Numeral.isDigit_of_mem_writeNat h)

theorem mem_numberChars_of_mem_writeInt {z : Int} {c : Char} (h : c ∈ Numeral.writeInt z) :
    c ∈ numberChars := by
  rw [Numeral.writeInt] at h
  split at h
  · rcases List.mem_cons.1 h with rfl | h
    · decide
    · exact mem_numberChars_of_mem_writeNat h
  · exact mem_numberChars_of_mem_writeNat h

theorem isAtom_of_numberChars {chars : List Char} (hne : chars ≠ [])
    (h : ∀ c ∈ chars, c ∈ numberChars) : IsAtom chars (ofAtom chars) := by
  -- As a check of the list: a statement about its members is decided over all characters.
  have hends : numberChars.all (fun c => !endsAtom c) = true := by decide
  exact ⟨hne, fun c hc => by simpa using List.all_eq_true.1 hends c (h c hc), rfl⟩

theorem isAtom_writeInt (n : Int64) : IsAtom (Numeral.writeInt n.toInt) (.integer n) := by
  have hinteger : IntegerAtom (Numeral.writeInt n.toInt) n :=
    ⟨_, [], (List.append_nil _).symm,
      Numeral.readInt64?_eq_some_iff.1 (Numeral.readInt64?_writeInt n), .inl rfl⟩
  have hne : Numeral.writeInt n.toInt ≠ [] := by
    intro hnil
    have hnumeric := looksNumeric_integerAtom hinteger
    rw [hnil] at hnumeric
    cases hnumeric
  rw [← ofAtom_of_denotes (.integer hinteger)]
  exact isAtom_of_numberChars hne fun c hc => mem_numberChars_of_mem_writeInt hc

theorem positional_numberChars {digits : List Char} (h : ∀ c ∈ digits, c ∈ numberChars)
    (point : Int) : ∀ c ∈ Double.positional digits point, c ∈ numberChars := by
  have hzero : '0' ∈ numberChars := by decide
  have hpoint : '.' ∈ numberChars := by decide
  have hzeros : ∀ n, ∀ c ∈ List.replicate n '0', c ∈ numberChars := by
    intro n c hc
    rw [List.eq_of_mem_replicate hc]
    exact hzero
  intro c hc
  rw [Double.positional] at hc
  split at hc
  · rcases List.mem_cons.1 hc with rfl | hc
    · exact hzero
    · rcases List.mem_cons.1 hc with rfl | hc
      · exact hpoint
      · rcases List.mem_append.1 hc with hc | hc
        · exact hzeros _ c hc
        · exact h c hc
  · split at hc
    · rcases List.mem_append.1 hc with hc | hc
      · exact h c (List.mem_of_mem_take hc)
      · rcases List.mem_cons.1 hc with rfl | hc
        · exact hpoint
        · exact h c (List.mem_of_mem_drop hc)
    · rcases List.mem_append.1 hc with hc | hc
      · rcases List.mem_append.1 hc with hc | hc
        · exact h c hc
        · exact hzeros _ c hc
      · have hend : c = '.' ∨ c = '0' := by simpa using hc
        rcases hend with rfl | rfl
        · exact hpoint
        · exact hzero

theorem exponential_numberChars {digits : List Char} (h : ∀ c ∈ digits, c ∈ numberChars)
    (point : Int) : ∀ c ∈ Double.exponential digits point, c ∈ numberChars := by
  intro c hc
  unfold Double.exponential at hc
  rcases List.mem_append.1 hc with hc | hc
  · split at hc
    · rw [List.mem_singleton.1 hc]
      decide
    · exact h c hc
    · rename_i d rest hne
      rcases List.mem_cons.1 hc with rfl | hc
      · exact h c (List.mem_cons_self ..)
      · rcases List.mem_cons.1 hc with rfl | hc
        · decide
        · exact h c (List.mem_cons_of_mem _ hc)
  · rcases List.mem_cons.1 hc with rfl | hc
    · decide
    · exact mem_numberChars_of_mem_writeInt hc

theorem stripZeros_numberChars {digits : List Char} (h : ∀ c ∈ digits, c ∈ numberChars)
    (exponent : Int) : ∀ c ∈ (Double.stripZeros digits exponent).1, c ∈ numberChars := by
  intro c hc
  have hkept := List.mem_reverse.1 hc
  exact h c (List.mem_reverse.1 ((List.dropWhile_suffix _).subset hkept))

theorem positional_ne_nil (digits : List Char) (point : Int) :
    Double.positional digits point ≠ [] := by
  rw [Double.positional]
  split
  · simp
  · split <;> simp

theorem exponential_ne_nil (digits : List Char) (point : Int) :
    Double.exponential digits point ≠ [] := by
  simp [Double.exponential]

/-- A finite float is written as an optional sign and what a number consists of. -/
theorem write_finite (negative : Bool) (m : Nat) (e : Int) : ∃ body,
    (Double.finite negative m e).write = (if negative then ['-'] else []) ++ body ∧
      body ≠ [] ∧ ∀ c ∈ body, c ∈ numberChars := by
  by_cases hm : m = 0
  · refine ⟨"0.0".toList, ?_, by decide, numberChars_of_all (by decide)⟩
    simp only [Double.write, if_pos hm]
  · have hdigits : ∀ c ∈ Numeral.writeNat (Double.shortest m e).digits, c ∈ numberChars :=
      fun c hc => mem_numberChars_of_mem_writeNat hc
    have hkept := stripZeros_numberChars hdigits (Double.shortest m e).exponent
    simp only [Double.write, if_neg hm]
    refine ⟨_, rfl, ?_, ?_⟩
    · split
      · exact positional_ne_nil _ _
      · exact exponential_ne_nil _ _
    · split
      · exact positional_numberChars hkept _
      · exact exponential_numberChars hkept _

theorem write_numberChars (x : Double) : ∀ c ∈ x.write, c ∈ numberChars := by
  cases x with
  | nan => exact numberChars_of_all (by decide)
  | infinite negative => cases negative <;> exact numberChars_of_all (by decide)
  | finite negative m e =>
    obtain ⟨body, hwrite, -, hbody⟩ := write_finite negative m e
    intro c hc
    rw [hwrite] at hc
    rcases List.mem_append.1 hc with hc | hc
    · cases negative with
      | false => cases hc
      | true =>
        rw [List.mem_singleton.1 hc]
        decide
    · exact hbody c hc

theorem write_ne_nil (x : Double) : x.write ≠ [] := by
  cases x with
  | nan => decide
  | infinite negative => cases negative <;> decide
  | finite negative m e =>
    obtain ⟨body, hwrite, hne, -⟩ := write_finite negative m e
    rw [hwrite]
    exact List.append_ne_nil_of_right_ne_nil _ hne

theorem isAtom_write (x : Double) : IsAtom x.write (ofAtom x.write) :=
  isAtom_of_numberChars (write_ne_nil x) (write_numberChars x)

namespace Reader

variable {r r₁ : Reader} {opened : List Opened} {value : Sexp}

theorem run_append {first : List Char} (h : r.run first = .ok r₁) (second : List Char) :
    r.run (first ++ second) = r₁.run second := by
  rw [run] at h
  rw [run, List.foldlM_append, h]
  rfl

theorem run_cons {c : Char} (h : r.feed c = .ok r₁) (rest : List Char) :
    r.run (c :: rest) = r₁.run rest := by
  rw [run, List.foldlM_cons, h]
  rfl

theorem run_singleton {c : Char} (h : r.feed c = .ok r₁) : r.run [c] = .ok r₁ := run_cons h []

/-- A reader that has taken the text of a value: it has put the value where it belongs, or is still
inside of an atom for it. -/
inductive Took (opened : List Opened) (value : Sexp) : Reader → Prop
  | whole (offset : Nat) :
      Took opened value ⟨offset, .none, (deliver value opened).1, (deliver value opened).2⟩
  | atom (offset : Nat) {chars : List Char} : ofAtom chars.reverse = value →
      Took opened value ⟨offset, .atom chars, opened, none⟩

theorem Took.feed (h : Took opened value r) {c : Char} (hc : endsAtom c = true) :
    ∃ offset offset',
      r.feed c = (between ⟨offset, .none, (deliver value opened).1, (deliver value opened).2⟩ c).map
        fun next => { next with offset := offset' } := by
  cases h with
  | whole offset => exact ⟨offset, _, rfl⟩
  | atom offset hvalue =>
    refine ⟨offset, offset + c.utf8Size, ?_⟩
    simp only [Reader.feed, step, hc, if_true, hvalue]
    rfl

theorem Took.space {held : List Sexp} {outer : List Opened}
    (h : Took (.list held :: outer) value r) :
    ∃ offset, r.feed ' ' = .ok ⟨offset, .none, .list (value :: held) :: outer, none⟩ := by
  obtain ⟨offset, offset', hfeed⟩ := h.feed (c := ' ') (by decide)
  exact ⟨offset', hfeed⟩

theorem Took.close {held : List Sexp} {outer : List Opened}
    (h : Took (.list held :: outer) value r) :
    ∃ r₁, r.feed ')' = .ok r₁ ∧ Took outer (ofItems (held.reverse ++ [value])) r₁ := by
  obtain ⟨offset, offset', hfeed⟩ := h.feed (c := ')') (by decide)
  refine ⟨_, hfeed, ?_⟩
  rw [← List.reverse_cons]
  exact .whole offset'

theorem feed_atom {c : Char} {held : List Char} (hc : endsAtom c = false) (offset : Nat) :
    feed ⟨offset, .atom held, opened, none⟩ c =
      .ok ⟨offset + c.utf8Size, .atom (c :: held), opened, none⟩ := by
  simp only [feed, step, hc, Bool.false_eq_true, if_false]
  rfl

theorem run_atomChars {chars : List Char} (hwhole : ∀ c ∈ chars, endsAtom c = false)
    (opened : List Opened) (offset : Nat) (held : List Char) :
    ∃ offset', run ⟨offset, .atom held, opened, none⟩ chars =
      .ok ⟨offset', .atom (chars.reverse ++ held), opened, none⟩ := by
  induction chars generalizing held offset with
  | nil => exact ⟨offset, rfl⟩
  | cons c rest ih =>
    obtain ⟨hc, hrest⟩ := List.forall_mem_cons.1 hwhole
    obtain ⟨offset', hrun⟩ := ih hrest (offset + c.utf8Size) (c :: held)
    refine ⟨offset', ?_⟩
    rw [run_cons (feed_atom hc offset), hrun, List.reverse_cons, List.append_assoc]
    rfl

theorem run_atom {chars : List Char} (h : IsAtom chars value) (offset : Nat) :
    ∃ r, run ⟨offset, .none, opened, none⟩ chars = .ok r ∧ Took opened value r := by
  cases chars with
  | nil => exact absurd rfl h.ne_nil
  | cons c rest =>
    obtain ⟨hc, hrest⟩ := List.forall_mem_cons.1 h.whole
    have hfirst : feed ⟨offset, .none, opened, none⟩ c =
        .ok ⟨offset + c.utf8Size, .atom [c], opened, none⟩ := by
      simp only [endsAtom, isDelimiter, Bool.or_eq_false_iff, beq_eq_false_iff_ne] at hc
      simp only [feed, step, between, hc, Option.isSome_none, Bool.false_eq_true, if_false]
      rfl
    obtain ⟨offset', hrun⟩ := run_atomChars hrest opened (offset + c.utf8Size) [c]
    refine ⟨_, (run_cons hfirst rest).trans hrun, .atom offset' ?_⟩
    rw [List.reverse_append, List.reverse_reverse]
    exact h.value_eq

theorem feed_text {c : Char} (hquote : c ≠ '"') (hescape : c ≠ '\\') (offset start : Nat)
    (held : List Char) :
    feed ⟨offset, .text start held, opened, none⟩ c =
      .ok ⟨offset + c.utf8Size, .text start (c :: held), opened, none⟩ := by
  simp only [feed, step, hquote, hescape, if_false]
  rfl

theorem run_escape (text : List Char) (opened : List Opened) (offset start : Nat)
    (held : List Char) :
    ∃ offset', run ⟨offset, .text start held, opened, none⟩ (escape text) =
      .ok ⟨offset', .text start (text.reverse ++ held), opened, none⟩ := by
  induction text generalizing held offset with
  | nil => exact ⟨offset, rfl⟩
  | cons c rest ih =>
    rw [List.reverse_cons, List.append_assoc, escape]
    split
    · exact ih (offset + '\\'.utf8Size + c.utf8Size) (c :: held)
    · rename_i hc
      obtain ⟨hquote, hescape⟩ := not_or.1 hc
      rw [run_cons (feed_text hquote hescape offset start held)]
      exact ih (offset + c.utf8Size) (c :: held)

theorem run_string (text : String) (offset : Nat) :
    ∃ r, run ⟨offset, .none, opened, none⟩ (printChars (.string text)) = .ok r ∧
      Took opened (.string text) r := by
  obtain ⟨offset', hrun⟩ := run_escape text.toList opened (offset + '"'.utf8Size) offset []
  have hopen : feed ⟨offset, .none, opened, none⟩ '"' =
      .ok ⟨offset + '"'.utf8Size, .text offset [], opened, none⟩ := rfl
  have hclose : feed ⟨offset', .text offset (text.toList.reverse ++ []), opened, none⟩ '"' =
      .ok ⟨offset' + '"'.utf8Size, .none, (deliver (.string text) opened).1,
        (deliver (.string text) opened).2⟩ := by
    simp only [feed, step, List.append_nil, List.reverse_reverse, String.ofList_toList]
    rfl
  refine ⟨_, ?_, .whole (offset' + '"'.utf8Size)⟩
  rw [printChars, run_cons hopen, run_append hrun, run_singleton hclose]

end Reader

def Unbroken (leaves : List Sexp) : Prop :=
  ∀ name, .symbol name ∈ leaves → IsAtom name.toList (ofAtom name.toList)

theorem Unbroken.append {first second : List Sexp} (h : Unbroken (first ++ second)) :
    Unbroken first ∧ Unbroken second :=
  ⟨fun name hn => h name (List.mem_append_left _ hn),
    fun name hn => h name (List.mem_append_right _ hn)⟩

open Reader

mutual
/-- The text of a value brings what its symbols and floats are read as, whatever is open around
it. -/
theorem run_printChars : ∀ (value : Sexp) (offset : Nat) (opened : List Opened),
    Unbroken value.leaves → ∃ r, run ⟨offset, .none, opened, none⟩ (printChars value) = .ok r ∧
      Took opened value.reread r
  | .nil, offset, _, _ => run_atom isAtom_nil offset
  | .truth, offset, _, _ => run_atom isAtom_truth offset
  | .integer n, offset, _, _ => by
    rw [printChars]
    exact run_atom (isAtom_writeInt n) offset
  | .float x, offset, _, _ => by
    rw [printChars]
    exact run_atom (isAtom_write x) offset
  | .string text, offset, _, _ => run_string text offset
  | .symbol name, offset, _, h => by
    rw [printChars]
    exact run_atom (h name (List.mem_singleton.2 rfl)) offset
  | .list [], offset, _, _ => run_atom isAtom_nil offset
  | .list (item :: rest), offset, opened, h => by
    obtain ⟨hitem, hrest⟩ := Unbroken.append h
    obtain ⟨r₁, hrun₁, htook₁⟩ :=
      run_printChars item (offset + '('.utf8Size) (.list [] :: opened) hitem
    obtain ⟨r₂, hrun₂, htook₂⟩ := run_printRest rest [] opened item.reread r₁ hrest htook₁
    refine ⟨r₂, ?_, htook₂⟩
    rw [printChars, run_cons rfl, List.append_assoc, run_append hrun₁, hrun₂]
/-- The text of further items and of the end of a list brings the whole list. -/
theorem run_printRest : ∀ (items held : List Sexp) (outer : List Opened) (value : Sexp)
    (r : Reader), Unbroken (leavesOf items) → Took (.list held :: outer) value r →
    ∃ r₁, r.run (printRest items ++ [')']) = .ok r₁ ∧
      Took outer (ofItems (held.reverse ++ value :: rereadOf items)) r₁
  | [], _, _, _, _, _, h => by
    obtain ⟨r₁, hclose, htook⟩ := h.close
    exact ⟨r₁, run_singleton hclose, htook⟩
  | item :: rest, held, outer, value, r, hnames, h => by
    obtain ⟨hitem, hrest⟩ := Unbroken.append hnames
    obtain ⟨offset, hspace⟩ := h.space
    obtain ⟨r₁, hrun₁, htook₁⟩ :=
      run_printChars item offset (.list (value :: held) :: outer) hitem
    obtain ⟨r₂, hrun₂, htook₂⟩ :=
      run_printRest rest (value :: held) outer item.reread r₁ hrest htook₁
    refine ⟨r₂, ?_, ?_⟩
    · rw [printRest, List.cons_append, run_cons hspace, List.append_assoc, run_append hrun₁, hrun₂]
    · rw [List.reverse_cons, List.append_assoc] at htook₂
      exact htook₂
end

theorem Reader.Took.finish {value : Sexp} {r : Reader} (h : Took [] value r) :
    r.finish = .ok value := by
  cases h with
  | whole offset => rfl
  | atom offset hvalue =>
    rw [Reader.finish]
    simp only [hvalue]
    rfl

theorem read_print {value : Sexp} (h : Unbroken value.leaves) :
    read value.print = .ok value.reread := by
  obtain ⟨r, hrun, htook⟩ := run_printChars value 0 [] h
  rw [read, print, String.toList_ofList, readChars]
  change (start.run (printChars value) >>= fun r => r.finish) = _
  rw [start, hrun]
  exact htook.finish

theorem mem_leavesOf {leaf : Sexp} {items : List Sexp} :
    leaf ∈ leavesOf items ↔ ∃ item ∈ items, leaf ∈ item.leaves := by
  induction items with
  | nil => simp [leavesOf]
  | cons item rest ih => simp [leavesOf, ih]

theorem symbol_mem_ofItems {name : String} {items : List Sexp} :
    .symbol name ∈ (ofItems items).leaves ↔ .symbol name ∈ leavesOf items := by
  cases items with
  | nil => simp [ofItems, leaves, leavesOf]
  | cons item rest => exact Iff.rfl

mutual
theorem symbol_mem_normal {name : String} : ∀ value : Sexp,
    .symbol name ∈ value.normal.leaves ↔ .symbol name ∈ value.leaves
  | .nil | .truth | .integer _ | .float _ | .string _ | .symbol _ => Iff.rfl
  | .list items => symbol_mem_ofItems.trans (symbol_mem_normalOf items)
theorem symbol_mem_normalOf {name : String} : ∀ items : List Sexp,
    .symbol name ∈ leavesOf (normalOf items) ↔ .symbol name ∈ leavesOf items
  | [] => Iff.rfl
  | item :: rest => by
    rw [normalOf, leavesOf, leavesOf, List.mem_append, List.mem_append, symbol_mem_normal item,
      symbol_mem_normalOf rest]
end

def Readable (value : Sexp) : Prop := ∀ name, .symbol name ∈ value.leaves → ReadableName name

theorem readable_list {items : List Sexp} :
    (list items).Readable ↔ ∀ item ∈ items, item.Readable := by
  simp only [Readable, leaves, mem_leavesOf]
  constructor
  · exact fun h item hitem name hname => h name ⟨item, hitem, hname⟩
  · rintro h name ⟨item, hitem, hname⟩
    exact h item hitem name hname

theorem readable_quote {value : Sexp} (h : value.Readable) :
    (list [symbol "quote", value]).Readable := by
  refine readable_list.2 fun item hitem => ?_
  rcases List.mem_cons.1 hitem with rfl | hitem
  · intro name hname
    cases List.mem_singleton.1 hname
    exact isAtom_of_all (by decide) (by decide) (by decide)
  · cases List.mem_singleton.1 hitem
    exact h

theorem ofAtom_cases (chars : List Char) :
    (∀ name, .symbol name ∉ (ofAtom chars).leaves) ∨
      ofAtom chars = .symbol (String.ofList chars) := by
  fun_cases ofAtom chars with
  | case1 => exact .inl (by simp [leaves])
  | case2 => exact .inl (by simp [leaves])
  | case3 => exact .inl (by simp [leaves])
  | case4 => exact .inl (by simp [leaves])
  | case5 => exact .inr rfl
  | case6 => exact .inr rfl

theorem readable_ofAtom {chars : List Char} (hne : chars ≠ [])
    (hwhole : ∀ c ∈ chars, endsAtom c = false) : (ofAtom chars).Readable := by
  intro name hname
  rcases ofAtom_cases chars with h | h
  · exact absurd hname (h name)
  · rw [h] at hname
    cases List.mem_singleton.1 hname
    rw [ReadableName, String.toList_ofList]
    exact ⟨hne, hwhole, h⟩

/-- The atoms that a text is cut into are not empty and have nothing in them that ends an atom. -/
theorem atom_of_lexes {text : List Char} {lexemes : List Lexeme} (h : Lexes text lexemes) :
    ∀ chars, .atom chars ∈ lexemes → chars ≠ [] ∧ ∀ c ∈ chars, endsAtom c = false := by
  induction h with
  | nil => exact nofun
  | blank _ _ ih => exact ih
  | comment _ _ _ ih => exact ih
  | opening _ ih | closing _ ih | quote _ ih | text _ _ ih =>
    intro chars hchars
    rcases List.mem_cons.1 hchars with heq | hrest
    · cases heq
    · exact ih chars hrest
  | atom hwhole _ _ ih =>
    intro chars hchars
    rcases List.mem_cons.1 hchars with heq | hrest
    · cases heq
      exact ⟨List.cons_ne_nil _ _, hwhole⟩
    · exact ih chars hrest

mutual
/-- Where the atoms are whole, the only symbols in a datum are readable ones. -/
theorem readable_of_datum {lexemes : List Lexeme} {value : Sexp}
    (h : ∀ chars, .atom chars ∈ lexemes → chars ≠ [] ∧ ∀ c ∈ chars, endsAtom c = false) :
    Datum lexemes value → value.Readable
  | .atom hdenotes => by
    obtain ⟨hne, hwhole⟩ := h _ (List.mem_cons_self ..)
    rw [← denotes_iff.1 hdenotes]
    exact readable_ofAtom hne hwhole
  | .text chars => fun name hname => by cases List.mem_singleton.1 hname
  | .quote hdatum =>
    readable_quote (readable_of_datum (fun chars hc => h chars (List.mem_cons_of_mem _ hc)) hdatum)
  | .empty => fun name hname => by cases List.mem_singleton.1 hname
  | .list hdata => by
    refine readable_list.2 (readable_of_data (fun chars hc => h chars ?_) hdata)
    exact List.mem_cons_of_mem _ (List.mem_append_left _ hc)
theorem readable_of_data {lexemes : List Lexeme} {items : List Sexp}
    (h : ∀ chars, .atom chars ∈ lexemes → chars ≠ [] ∧ ∀ c ∈ chars, endsAtom c = false) :
    Data lexemes items → ∀ item ∈ items, item.Readable
  | .nil => nofun
  | .cons hfirst hmore => List.forall_mem_cons.2
    ⟨readable_of_datum (fun chars hc => h chars (List.mem_append_left _ hc)) hfirst,
      readable_of_data (fun chars hc => h chars (List.mem_append_right _ hc)) hmore⟩
end

theorem readable_of_read {text : String} {value : Sexp} (h : read text = .ok value) :
    value.Readable := by
  obtain ⟨lexemes, hlexes, hdatum⟩ := read_eq_ok_iff_spells.1 h
  exact readable_of_datum (atom_of_lexes hlexes) hdatum

def Kept : Sexp → Prop
  | .symbol name => ofAtom name.toList = .symbol name
  | .float x => ofAtom x.write = .float x
  | _ => True

theorem ofItems_inj {items more : List Sexp} (hlength : items.length = more.length) :
    ofItems items = ofItems more ↔ items = more := by
  constructor
  · intro h
    cases items with
    | nil => exact (List.length_eq_zero_iff.1 hlength.symm).symm
    | cons item rest =>
      cases more with
      | nil => cases hlength
      | cons other others => exact Sexp.list.inj h
  · exact fun h => h ▸ rfl

theorem length_normalOf (items : List Sexp) : (normalOf items).length = items.length := by
  induction items with
  | nil => rfl
  | cons item rest ih => rw [normalOf, List.length_cons, ih, List.length_cons]

theorem length_rereadOf (items : List Sexp) : (rereadOf items).length = items.length := by
  induction items with
  | nil => rfl
  | cons item rest ih => rw [rereadOf, List.length_cons, ih, List.length_cons]

mutual
theorem reread_eq_normal_iff : ∀ value : Sexp,
    value.reread = value.normal ↔ ∀ leaf ∈ value.leaves, leaf.Kept
  | .nil | .truth | .integer _ | .string _ => by simp [reread, normal, leaves, Kept]
  | .float _ | .symbol _ => by simp [reread, normal, leaves, Kept]
  | .list items => by
    have hlength : (rereadOf items).length = (normalOf items).length := by
      rw [length_rereadOf, length_normalOf]
    rw [reread, normal, ofItems_inj hlength]
    exact rereadOf_eq_normalOf_iff items
theorem rereadOf_eq_normalOf_iff : ∀ items : List Sexp,
    rereadOf items = normalOf items ↔ ∀ leaf ∈ leavesOf items, leaf.Kept
  | [] => by simp [rereadOf, normalOf, leavesOf]
  | item :: rest => by
    rw [rereadOf, normalOf, leavesOf, List.cons.injEq, reread_eq_normal_iff item,
      rereadOf_eq_normalOf_iff rest, List.forall_mem_append]
end

def ReadsBack (value : Sexp) : Prop := read value.print = .ok value.normal

/-- A value is read back exactly when every symbol in it has a readable name and every float in it
is read as itself. -/
theorem readsBack_iff {value : Sexp} : value.ReadsBack ↔
    value.Readable ∧ ∀ x, .float x ∈ value.leaves → ofAtom x.write = .float x := by
  constructor
  · intro h
    have hreadable : value.Readable :=
      fun name hname => readable_of_read h name ((symbol_mem_normal value).2 hname)
    have hunbroken : Unbroken value.leaves := fun name hname =>
      ⟨(hreadable name hname).ne_nil, (hreadable name hname).whole, rfl⟩
    have hsame := Except.ok.inj ((read_print hunbroken).symm.trans h)
    exact ⟨hreadable, fun x hx => (reread_eq_normal_iff value).1 hsame _ hx⟩
  · rintro ⟨hreadable, hfloats⟩
    have hunbroken : Unbroken value.leaves := fun name hname =>
      ⟨(hreadable name hname).ne_nil, (hreadable name hname).whole, rfl⟩
    rw [ReadsBack, read_print hunbroken, (reread_eq_normal_iff value).2]
    intro leaf hleaf
    cases leaf with
    | symbol name => exact (hreadable name hleaf).value_eq
    | float x => exact hfloats x hleaf
    | _ => trivial

section ReadsBack

variable {name : String} {value : Sexp}

@[simp] theorem readsBack_nil : nil.ReadsBack := by
  simp [readsBack_iff, Readable, leaves]

@[simp] theorem readsBack_truth : truth.ReadsBack := by
  simp [readsBack_iff, Readable, leaves]

@[simp] theorem readsBack_integer (n : Int64) : (integer n).ReadsBack := by
  simp [readsBack_iff, Readable, leaves]

@[simp] theorem readsBack_string (text : String) : (string text).ReadsBack := by
  simp [readsBack_iff, Readable, leaves]

theorem readsBack_float_iff {x : Double} : (float x).ReadsBack ↔ ofAtom x.write = float x := by
  simp [readsBack_iff, Readable, leaves]

theorem readsBack_symbol_iff : (symbol name).ReadsBack ↔ ReadableName name := by
  simp [readsBack_iff, Readable, leaves]

theorem readsBack_list {items : List Sexp} :
    (list items).ReadsBack ↔ ∀ item ∈ items, item.ReadsBack := by
  simp only [readsBack_iff, readable_list, leaves, mem_leavesOf]
  constructor
  · rintro ⟨hreadable, hfloats⟩ item hitem
    exact ⟨hreadable item hitem, fun x hx => hfloats x ⟨item, hitem, hx⟩⟩
  · intro h
    refine ⟨fun item hitem => (h item hitem).1, ?_⟩
    rintro x ⟨item, hitem, hx⟩
    exact (h item hitem).2 x hx

theorem isAtom_colon {chars : List Char} (h : ∀ c ∈ chars, endsAtom c = false) :
    IsAtom (':' :: chars) (.symbol (String.ofList (':' :: chars))) := by
  refine ⟨List.cons_ne_nil _ _, List.forall_mem_cons.2 ⟨by decide, h⟩, ?_⟩
  have hnumeric : looksNumeric (':' :: chars) = false := by simp [looksNumeric, Numeral.isDigit]
  rw [ofAtom, if_neg, if_neg, if_neg]
  · simp [hnumeric]
  · simp
  · simp

/-- A keyword is read back when nothing in its name ends an atom. -/
theorem readsBack_keyword (h : name.toList.any endsAtom = false) :
    (keyword name).ReadsBack := by
  replace h : ∀ c ∈ name.toList, endsAtom c = false := by simpa using h
  rw [keyword]
  split
  · rename_i chars hname
    rw [hname] at h
    have hcolon := isAtom_colon (List.forall_mem_cons.1 h).2
    rw [← hname, String.ofList_toList] at hcolon
    exact readsBack_symbol_iff.2 hcolon
  · have hcolon := isAtom_colon h
    have hname : String.ofList (':' :: name.toList) = ":" ++ name := by
      rw [← String.toList_inj]
      simp
    rw [hname] at hcolon
    refine readsBack_symbol_iff.2 ?_
    rw [ReadableName, String.toList_append]
    exact hcolon

end ReadsBack

/-- A value without floats is read back, with `nil` for its empty lists, exactly when every symbol
in it has a readable name. -/
theorem read_print_iff (value : Sexp) (hfloat : ∀ x, .float x ∉ value.leaves) :
    read value.print = .ok value.normal ↔
      ∀ name, .symbol name ∈ value.leaves → ReadableName name := by
  have hiff : value.ReadsBack ↔ _ := readsBack_iff
  rw [ReadsBack] at hiff
  rw [hiff]
  exact ⟨fun h => h.1, fun h => ⟨h, fun x hx => absurd hx (hfloat x)⟩⟩

/-- A list with a keyword, an escaped string, an empty list, the least integer and a symbol that
starts like a number. -/
def mixed : Sexp :=
  .list [.symbol ":ok", .list [.string "a \"b\" \\c", .list []], .integer Int64.minValue,
    .symbol "1+"]

theorem read_print_mixed : (∀ x, .float x ∉ mixed.leaves) ∧ read mixed.print =
    .ok (.list [.symbol ":ok", .list [.string "a \"b\" \\c", .nil], .integer Int64.minValue,
      .symbol "1+"]) := by
  have hfloat : ∀ x, .float x ∉ mixed.leaves := by simp [mixed, leaves, leavesOf]
  refine ⟨hfloat, (read_print_iff mixed hfloat).2 fun name hname => ?_⟩
  have hcases : name = ":ok" ∨ name = "1+" := by simpa [mixed, leaves, leavesOf] using hname
  rcases hcases with rfl | rfl
  · exact isAtom_of_all (by decide) (by decide) (by decide)
  · exact isAtom_of_all (by decide) (by decide) (by decide)

end SlimeServer.Sexp
