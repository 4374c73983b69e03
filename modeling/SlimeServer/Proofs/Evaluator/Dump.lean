import SlimeServer.Evaluator.CallStack
import SlimeServer.Proofs.Number.Numeral
import SlimeServer.Proofs.Text.Lines
/-!
# Reading call-stack dumps

A line of a dump shows a frame when it is cut at its first separator behind a numeral. The frames of
a dump are those of the lines after its head, up to the first line that shows none, and they are
numbered by their place.
-/
namespace SlimeServer.CallStack

open Text

def CutAt (line before after : List Char) : Prop :=
  line = before ++ separator ++ after ∧
    ∀ shorter more, line = shorter ++ separator ++ more → before.length ≤ shorter.length

/-- The line has no separator, or what stands before the first one is not the numeral of a number
of 64 bits, white space around it apart. -/
def NoFrame (line : List Char) : Prop :=
  ¬ separator <:+: line ∨ ∃ before after, CutAt line before after ∧
    ∀ n, ¬ Numeral.Unsigned 64 (trimChars before) n

section

variable {line before after : List Char}

theorem CutAt.unique {before' after' : List Char} (h : CutAt line before after)
    (h' : CutAt line before' after') : before = before' ∧ after = after' := by
  have hlength := Nat.le_antisymm (h.2 _ _ h'.1) (h'.2 _ _ h.1)
  have heq := h.1.symm.trans h'.1
  rw [List.append_assoc, List.append_assoc] at heq
  obtain ⟨hbefore, hrest⟩ := List.append_inj heq hlength
  exact ⟨hbefore, (List.append_right_inj separator).1 hrest⟩

theorem splitSeparator?_spec (line : List Char) :
    match splitSeparator? line with
    | some (before, after) => CutAt line before after
    | none => ¬ separator <:+: line := by
  induction line with
  | nil => exact fun h => absurd (List.eq_nil_of_infix_nil h) (List.cons_ne_nil _ _)
  | cons c rest ih =>
    rw [splitSeparator?]
    by_cases hstart : separator.isPrefixOf (c :: rest) = true
    · obtain ⟨after, hafter⟩ := List.isPrefixOf_iff_prefix.1 hstart
      rw [if_pos hstart, ← hafter, List.drop_left]
      exact ⟨rfl, fun _ _ _ => Nat.zero_le _⟩
    · have hfirst : ∀ more, c :: rest ≠ separator ++ more := fun more h =>
        hstart (List.isPrefixOf_iff_prefix.2 ⟨more, h.symm⟩)
      rw [if_neg hstart]
      cases hsplit : splitSeparator? rest with
      | none =>
        rw [hsplit] at ih
        intro h
        rcases List.infix_cons_iff.1 h with ⟨more, hmore⟩ | hinfix
        · exact hfirst more hmore.symm
        · exact ih hinfix
      | some cut =>
        rw [hsplit] at ih
        obtain ⟨hrest, hleast⟩ := ih
        refine ⟨congrArg (c :: ·) hrest, fun shorter more hline => ?_⟩
        cases shorter with
        | nil => exact absurd hline (hfirst more)
        | cons d shorter =>
          have htail := hleast shorter more (List.cons.inj hline).2
          simpa using htail

theorem splitSeparator?_of_cutAt (h : CutAt line before after) :
    splitSeparator? line = some (before, after) := by
  have hspec := splitSeparator?_spec line
  cases hsplit : splitSeparator? line with
  | none =>
    rw [hsplit] at hspec
    exact absurd ⟨before, after, h.1.symm⟩ hspec
  | some cut =>
    rw [hsplit] at hspec
    obtain ⟨hbefore, hafter⟩ := CutAt.unique h hspec
    rw [hbefore, hafter]

theorem description?_of_cutAt (h : CutAt line before after) :
    description? line = (Numeral.readUnsigned? 64 (trimChars before)).map fun _ => after := by
  rw [description?, splitSeparator?_of_cutAt h]
  exact Option.map_eq_bind.symm

theorem description?_of_noFrame (h : NoFrame line) : description? line = none := by
  rcases h with hfree | ⟨before, after, hcut, hnumber⟩
  · have hspec := splitSeparator?_spec line
    cases hsplit : splitSeparator? line with
    | none => rw [description?, hsplit]; rfl
    | some cut =>
      rw [hsplit] at hspec
      exact absurd ⟨_, _, hspec.1.symm⟩ hfree
  · have hnone : Numeral.readUnsigned? 64 (trimChars before) = none :=
      Option.eq_none_iff_forall_ne_some.2 fun n hn =>
        hnumber n (Numeral.readUnsigned?_eq_some_iff.1 hn)
    rw [description?_of_cutAt hcut, hnone]
    rfl

end

/-- A line that shows a frame, with white space around it: a decimal number of 64 bits, the
separator and a description. -/
structure FrameLine where
  indentation : List Char
  digits : List Char
  description : List Char
  trailing : List Char
  indented : ∀ c ∈ indentation, isBlank c = true ∧ c ≠ '\n'
  numbered : digits ≠ [] ∧ (∀ c ∈ digits, Numeral.isDigit c = true) ∧
    Nat.ofDigitChars 10 digits 0 < Nat.pow 2 64
  described : ∃ c, description.getLast? = some c ∧ isBlank c = false
  oneLine : '\n' ∉ description
  trailed : ∀ c ∈ trailing, isBlank c = true ∧ c ≠ '\n'

namespace FrameLine

variable (f : FrameLine)

def body : List Char := f.digits ++ separator ++ f.description

def chars : List Char := f.indentation ++ f.body ++ f.trailing

theorem isBlank_of_isDigit {c : Char} (h : Numeral.isDigit c = true) : isBlank c = false := by
  obtain ⟨hlow, hhigh⟩ := Numeral.isDigit_iff.1 h
  have hall : ∀ n < 58, 48 ≤ n → isBlank (Char.ofNat n) = false := by decide
  have hc := hall c.toNat (by omega) hlow
  rwa [Char.ofNat_toNat] at hc

theorem newline_not_mem : '\n' ∉ f.chars := by
  have hseparator : '\n' ∉ separator := by decide
  have hdigits : '\n' ∉ f.digits := fun h => by cases f.numbered.2.1 _ h
  simp only [chars, body, List.mem_append, not_or]
  exact ⟨⟨fun h => (f.indented _ h).2 rfl, ⟨hdigits, hseparator⟩, f.oneLine⟩,
    fun h => (f.trailed _ h).2 rfl⟩

theorem trimChars_digits : trimChars f.digits = f.digits := by
  have hdigit : ∀ c ∈ f.digits, isBlank c = false :=
    fun c hc => isBlank_of_isDigit (f.numbered.2.1 c hc)
  have htrim : trimChars ([] ++ f.digits ++ []) = f.digits := trimChars_padded nofun nofun
    (fun c hc => hdigit c (List.mem_of_mem_head? hc))
    (fun c hc => hdigit c (List.mem_of_getLast? hc))
  rwa [List.nil_append, List.append_nil] at htrim

theorem trimChars_chars : trimChars f.chars = f.body := by
  refine trimChars_padded (fun c hc => (f.indented c hc).1) (fun c hc => (f.trailed c hc).1) ?_ ?_
  · intro c hc
    obtain ⟨hne, hdigits, -⟩ := f.numbered
    rw [body, List.append_assoc, List.head?_append, List.head?_eq_some_head hne] at hc
    cases hc
    exact isBlank_of_isDigit (hdigits _ (List.head_mem hne))
  · intro c hc
    obtain ⟨d, hlast, hd⟩ := f.described
    rw [body, List.getLast?_append, hlast] at hc
    cases hc
    exact hd

theorem cutAt_body : CutAt f.body f.digits f.description := by
  refine ⟨rfl, fun shorter more hbody => Nat.le_of_not_lt fun hlt => ?_⟩
  have hcolon : f.body[shorter.length]? = some ':' := by
    rw [hbody, List.append_assoc, List.getElem?_append_right (Nat.le_refl _), Nat.sub_self]
    rfl
  rw [body, List.append_assoc, List.getElem?_append_left hlt] at hcolon
  have hdigit := f.numbered.2.1 _ (List.mem_of_getElem? hcolon)
  cases hdigit

theorem description?_chars : description? (trimChars f.chars) = some f.description := by
  have hnumber : Numeral.Unsigned 64 f.digits (Nat.ofDigitChars 10 f.digits 0) :=
    ⟨[], f.digits, .inl rfl, rfl, f.numbered.1, f.numbered.2.1, rfl, f.numbered.2.2⟩
  rw [trimChars_chars, description?_of_cutAt f.cutAt_body, trimChars_digits,
    Numeral.readUnsigned?_eq_some_iff.2 hnumber]
  rfl

end FrameLine

theorem leading_append {α β γ : Type} {f : α → Option β} {row : γ → α} {value : γ → β}
    (h : ∀ c, f (row c) = some (value c)) (cs : List γ) (rest : List α) :
    leading f (cs.map row ++ rest) = cs.map value ++ leading f rest := by
  induction cs with
  | nil => rfl
  | cons c cs ih =>
    rw [List.map_cons, List.cons_append, leading, h c]
    exact congrArg _ ih

theorem number_eq_mapIdx (index : Nat) (texts : List (List Char)) : number index texts =
    texts.mapIdx fun i text => ⟨index + i, String.ofList text, false⟩ := by
  induction texts generalizing index with
  | nil => rfl
  | cons text rest ih =>
    rw [number, ih, List.mapIdx_cons]
    simp only [Nat.add_zero, Nat.add_assoc, Nat.add_comm 1]

theorem parse_eq (dump : String) : parse dump =
    (leading description? (((lines dump.toList).map trimChars).drop 4)).mapIdx
      fun i text => ⟨i, String.ofList text, false⟩ := by
  have hnumber := number_eq_mapIdx 0 (leading description?
    (((lines dump.toList).map trimChars).drop 4))
  simp only [Nat.zero_add] at hnumber
  exact hnumber

/-- Behind any four lines, the frames are those of the lines that show one, in order and up to the
first line that shows none, however they are numbered. Where there are no further lines there are no
frames. A newline at the end of a dump does not matter. -/
theorem parse_frames :
    (∀ (head : List (List Char)) (frames : List FrameLine) (rest : List Char),
      head.length = 4 → (∀ row ∈ head, '\n' ∉ row) →
      (rest = [] ∨ NoFrame (trimChars (rest.takeWhile (· ≠ '\n')))) →
      parse (String.ofList (ended (head ++ frames.map FrameLine.chars) ++ rest)) =
        (frames.map FrameLine.description).mapIdx fun i text => ⟨i, String.ofList text, false⟩) ∧
    (∀ dump : String, (lines dump.toList).length ≤ 4 → parse dump = []) ∧
    ∀ dump : String, dump ≠ "" → dump.toList.getLast? ≠ some '\n' →
      parse (dump ++ "\n") = parse dump := by
  refine ⟨fun head frames rest hhead hrows hrest => ?_, fun dump hdump => ?_,
    fun dump hne hlast => ?_⟩
  · have hall : ∀ row ∈ head ++ frames.map FrameLine.chars, '\n' ∉ row := by
      refine List.forall_mem_append.2 ⟨hrows, fun row hrow => ?_⟩
      obtain ⟨f, -, rfl⟩ := List.mem_map.1 hrow
      exact f.newline_not_mem
    -- What follows the frames shows none on its first line, and the rest of it is not looked at.
    have hbehind : leading description? ((lines rest).map trimChars) = [] := by
      rcases hrest with rfl | hnone
      · rfl
      · by_cases hempty : rest = []
        · rw [hempty]
          rfl
        · obtain ⟨more, hmore⟩ := exists_lines hempty
          rw [hmore, List.map_cons, leading, description?_of_noFrame hnone]
    have hshown : leading description? (frames.map (fun f => trimChars (FrameLine.chars f)) ++
        (lines rest).map trimChars) = frames.map FrameLine.description ++ _ :=
      leading_append FrameLine.description?_chars frames _
    rw [parse_eq, String.toList_ofList, lines_ended hall, List.append_assoc, List.map_append,
      List.drop_append_of_le_length (by simp [hhead]), List.drop_eq_nil_of_le (by simp [hhead]),
      List.nil_append, List.map_append, List.map_map]
    rw [Function.comp_def, hshown, hbehind, List.append_nil]
  · rw [parse_eq, List.drop_eq_nil_of_le (by simpa using hdump)]
    rfl
  · have hchars : (dump ++ "\n").toList = dump.toList ++ ['\n'] := String.toList_append
    have hsome : dump.toList ≠ [] := by simpa using hne
    rw [parse_eq, parse_eq, hchars, lines_append_newline hsome hlast]

/-- A frame whose number has leading zeros and whose description begins with a space and holds a
separator. -/
def nestedLine : FrameLine where
  indentation := [' ', '\t']
  digits := ['0', '0', '7']
  description := " (f \": at 3\")".toList
  trailing := ['\r']
  indented := List.forall_mem_cons.2 ⟨by decide, List.forall_mem_singleton.2 (by decide)⟩
  numbered := ⟨by decide, List.all_eq_true.1 (by decide), by decide⟩
  described := ⟨')', by decide +kernel⟩
  oneLine := by decide +kernel
  trailed := List.forall_mem_singleton.2 (by decide)

/-- A frame with the greatest number of 64 bits. -/
def greatestLine : FrameLine where
  indentation := []
  digits := "18446744073709551615".toList
  description := ['b']
  trailing := []
  indented := nofun
  numbered := ⟨by decide, List.all_eq_true.1 (by decide), by decide⟩
  described := ⟨'b', by decide⟩
  oneLine := by decide
  trailed := nofun

theorem parse_frames_greatest :
    parse ("Call stack:\n\n0: at a\n\r\n \t007: at  (f \": at 3\")\r\n" ++
      "18446744073709551615: at b\n18446744073709551616: at c\n9: at d") =
      [⟨0, " (f \": at 3\")", false⟩, ⟨1, "b", false⟩] := by
  have hcut : CutAt "18446744073709551616: at c".toList "18446744073709551616".toList ['c'] := by
    have hspec := splitSeparator?_spec "18446744073709551616: at c".toList
    have hsplit : splitSeparator? "18446744073709551616: at c".toList =
        some ("18446744073709551616".toList, ['c']) := by decide +kernel
    rwa [hsplit] at hspec
  have hlarge : Numeral.readUnsigned? 64 (trimChars "18446744073709551616".toList) = none := by
    decide +kernel
  have hnone : NoFrame "18446744073709551616: at c".toList :=
    .inr ⟨_, _, hcut, fun n hn => by
      rw [← Numeral.readUnsigned?_eq_some_iff, hlarge] at hn
      cases hn⟩
  have hfirst : trimChars ("18446744073709551616: at c\n9: at d".toList.takeWhile (· ≠ '\n')) =
      "18446744073709551616: at c".toList := by decide +kernel
  have hframes := parse_frames.1 ["Call stack:".toList, [], "0: at a".toList, ['\r']]
    [nestedLine, greatestLine] "18446744073709551616: at c\n9: at d".toList rfl
    (by decide +kernel) (.inr (by rw [hfirst]; exact hnone))
  exact hframes

end SlimeServer.CallStack
