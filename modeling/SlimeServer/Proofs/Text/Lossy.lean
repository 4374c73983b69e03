import Mathlib.Data.List.Induction
import SlimeServer.Proofs.Text.Segments
import SlimeServer.Text.Utf8
/-!
# Decoding in segments

Bytes that are not UTF-8 are decoded with a replacement for every malformed piece of them. Decoded
in two parts they give what they give as a whole, unless the second part goes on with a character
that the first one ends inside of: then there is a replacement on each side of the cut.
-/
namespace SlimeServer.Utf8

def Owed.Admits (o : Owed) (b : UInt8) : Prop := o.low ≤ b.toNat ∧ b.toNat ≤ o.high

def CharactersWhole (before after : List UInt8) : Prop :=
  ∀ o, (Decoder.start.run before).owed = some o → ∀ b ∈ after.head?, ¬ o.Admits b

section

variable {items : List (Option Char)} {o : Owed} {b : UInt8} {bytes : List UInt8}

def Decoder.fresh (owed : Option Owed) : Decoder := ⟨owed, []⟩

theorem first_items (items : List (Option Char)) (b : UInt8) :
    Decoder.first items b =
      ⟨(Decoder.first [] b).owed, (Decoder.first [] b).items ++ items⟩ := by
  simp only [Decoder.first]
  repeat' split
  all_goals rfl

theorem feed_items (d : Decoder) (b : UInt8) :
    d.feed b = ⟨((Decoder.fresh d.owed).feed b).owed,
      ((Decoder.fresh d.owed).feed b).items ++ d.items⟩ := by
  obtain ⟨owed, items⟩ := d
  cases owed with
  | none => exact first_items items b
  | some o =>
    simp only [Decoder.feed, Decoder.fresh]
    split
    · split <;> rfl
    · rw [first_items (none :: items), first_items [none]]
      simp

theorem finish_run (d : Decoder) (bytes : List UInt8) :
    (d.run bytes).finish = d.items.reverse ++ ((Decoder.fresh d.owed).run bytes).finish := by
  induction bytes generalizing d with
  | nil =>
    obtain ⟨owed, items⟩ := d
    cases owed <;> simp [Decoder.run, Decoder.finish, Decoder.fresh]
  | cons b rest ih =>
    have hd := ih (d.feed b)
    have hfresh := ih ((Decoder.fresh d.owed).feed b)
    rw [feed_items d b] at hd
    simp only [Decoder.run, List.foldl_cons] at hd hfresh ⊢
    rw [feed_items d b, hd, hfresh]
    simp

theorem finish_run_between (items : List (Option Char)) (bytes : List UInt8) :
    ((⟨none, items⟩ : Decoder).run bytes).finish =
      items.reverse ++ (Decoder.start.run bytes).finish := finish_run _ _

theorem finish_run_inside (o : Owed) (items : List (Option Char)) (bytes : List UInt8) :
    ((⟨some o, items⟩ : Decoder).run bytes).finish =
      items.reverse ++ ((Decoder.fresh (some o)).run bytes).finish := finish_run _ _

def Owed.Tails (o : Owed) : Prop := 0x80 ≤ o.low ∧ o.high ≤ 0xBF

theorem first_cases (items : List (Option Char)) (b : UInt8) :
    (∃ item, Decoder.first items b = ⟨none, item :: items⟩) ∨
      ∃ o, Decoder.first items b = ⟨some o, items⟩ ∧ o.Tails ∧ o.taken = 1 := by
  generalize hd : Decoder.first items b = d
  simp only [Decoder.first] at hd
  repeat' split at hd
  all_goals
    subst hd
    simp [Owed.Tails]

theorem first_of_tail (items : List (Option Char)) (hl : 0x80 ≤ b.toNat) (hh : b.toNat ≤ 0xBF) :
    Decoder.first items b = ⟨none, none :: items⟩ := by
  have h₁ : ¬ b.toNat < 0x80 := by omega
  have h₂ : ¬ (0xC2 ≤ b.toNat ∧ b.toNat ≤ 0xDF) := by omega
  have h₃ : ¬ b.toNat = 0xE0 := by omega
  have h₄ : ¬ b.toNat = 0xED := by omega
  have h₅ : ¬ (0xE1 ≤ b.toNat ∧ b.toNat ≤ 0xEF) := by omega
  have h₆ : ¬ b.toNat = 0xF0 := by omega
  have h₇ : ¬ (0xF1 ≤ b.toNat ∧ b.toNat ≤ 0xF3) := by omega
  have h₈ : ¬ b.toNat = 0xF4 := by omega
  simp only [Decoder.first, h₁, h₂, h₃, h₄, h₅, h₆, h₇, h₈, if_false]

theorem feed_admitted (items : List (Option Char)) (h : o.Admits b) :
    (∃ c, (⟨some o, items⟩ : Decoder).feed b = ⟨none, some c :: items⟩) ∨
      ∃ o', (⟨some o, items⟩ : Decoder).feed b = ⟨some o', items⟩ ∧ o'.Tails ∧
        o'.taken = o.taken + 1 := by
  have hrange : o.low ≤ b.toNat ∧ b.toNat ≤ o.high := h
  simp only [Decoder.feed, hrange, and_self, if_true]
  split
  · exact .inl ⟨_, rfl⟩
  · exact .inr ⟨_, rfl, ⟨Nat.le_refl _, Nat.le_refl _⟩, rfl⟩

theorem feed_refused (items : List (Option Char)) (h : ¬ o.Admits b) :
    (⟨some o, items⟩ : Decoder).feed b = Decoder.first (none :: items) b := by
  have hrange : ¬ (o.low ≤ b.toNat ∧ b.toNat ≤ o.high) := h
  simp only [Decoder.feed, hrange, if_false]

/-- Inside a character that follows nothing malformed, what has come of it is what was taken since
the last character ended. -/
theorem run_inside (h : Decoder.start.run bytes = ⟨some o, items⟩) :
    o.Tails ∧ (none ∉ items → o.taken ≤ bytes.length ∧
      Decoder.start.run (bytes.take (bytes.length - o.taken)) = ⟨none, items⟩) := by
  induction bytes using List.reverseRecOn generalizing o items with
  | nil => cases h
  | append_singleton bytes b ih =>
    rw [Decoder.run_append] at h
    generalize hd : Decoder.start.run bytes = d at h ih
    obtain ⟨owed, before⟩ := d
    replace h : (⟨owed, before⟩ : Decoder).feed b = ⟨some o, items⟩ := h
    have hshort : ∀ k, (bytes ++ [b]).take (bytes.length - k) = bytes.take (bytes.length - k) :=
      fun k => List.take_append_of_le_length (Nat.sub_le _ _)
    cases owed with
    | none =>
      rcases first_cases before b with ⟨item, hfirst⟩ | ⟨o', hfirst, htails, htaken⟩
      · cases hfirst.symm.trans h
      · cases hfirst.symm.trans h
        refine ⟨htails, fun _ => ⟨by simp [htaken], ?_⟩⟩
        rw [htaken, List.length_append, List.length_singleton, Nat.add_sub_cancel,
          List.take_left]
        exact hd
    | some o' =>
      by_cases hb : o'.Admits b
      · rcases feed_admitted before hb with ⟨c, hfeed⟩ | ⟨o'', hfeed, htails, htaken⟩
        · cases hfeed.symm.trans h
        · cases hfeed.symm.trans h
          refine ⟨htails, fun hsound => ?_⟩
          obtain ⟨hle, hrun⟩ := (ih rfl).2 hsound
          rw [htaken, List.length_append, List.length_singleton, Nat.add_sub_add_right, hshort]
          exact ⟨by omega, hrun⟩
      · rw [feed_refused before hb] at h
        rcases first_cases (none :: before) b with ⟨item, hfirst⟩ | ⟨o'', hfirst, htails, -⟩
        · cases hfirst.symm.trans h
        · cases hfirst.symm.trans h
          exact ⟨htails, fun hsound => absurd (List.mem_cons_self ..) hsound⟩

/-- Without its unfinished tail, a sequence of bytes that keeps nothing malformed ends between
characters. -/
theorem owed_take_unfinishedTail
    (h : none ∉ (Decoder.start.run (bytes.take (bytes.length - unfinishedTail bytes))).items) :
    (Decoder.start.run (bytes.take (bytes.length - unfinishedTail bytes))).owed = none := by
  generalize hd : Decoder.start.run bytes = d
  obtain ⟨owed, items⟩ := d
  cases owed with
  | none =>
    have htail : unfinishedTail bytes = 0 := by simp [unfinishedTail, hd]
    rw [htail, Nat.sub_zero, List.take_length, hd]
  | some o =>
    by_cases hsound : none ∈ items
    · have htail : unfinishedTail bytes = 0 := by
        simp only [unfinishedTail, hd]
        rw [if_neg]
        exact fun hall => absurd (List.all_eq_true.1 hall none hsound) (by decide)
      rw [htail, Nat.sub_zero, List.take_length, hd] at h
      exact absurd hsound h
    · have htail : unfinishedTail bytes = o.taken := by
        simp only [unfinishedTail, hd]
        rw [if_pos]
        apply List.all_eq_true.2
        intro item hitem
        cases item with
        | none => exact absurd hitem hsound
        | some c => rfl
      rw [htail, ((run_inside hd).2 hsound).2]

theorem length_finish_tail (ho : o.Tails) (hb : o.Admits b) (rest : List UInt8) :
    (Decoder.start.run (b :: rest)).finish.length =
      (Decoder.start.run rest).finish.length + 1 := by
  have hstart : Decoder.start.run (b :: rest) = (⟨none, [none]⟩ : Decoder).run rest :=
    congrArg (·.run rest)
      (first_of_tail [] (Nat.le_trans ho.1 hb.1) (Nat.le_trans hb.2 ho.2))
  rw [hstart, finish_run_between]
  simp

/-- A byte that goes on with a character takes part in at most one item, where that is so of the
bytes after it. -/
theorem length_finish_admitted {rest : List UInt8} (hb : o.Admits b)
    (hrest : ∀ o' : Owed, o'.Tails → ((Decoder.fresh (some o')).run rest).finish.length ≤
      (Decoder.start.run rest).finish.length + 1) :
    ((Decoder.fresh (some o)).run (b :: rest)).finish.length ≤
      (Decoder.start.run rest).finish.length + 1 := by
  rcases feed_admitted [] hb with ⟨c, hfeed⟩ | ⟨o', hfeed, htails, -⟩
  · have hends : ((Decoder.fresh (some o)).run (b :: rest)).finish =
        some c :: (Decoder.start.run rest).finish :=
      (congrArg (fun d => (d.run rest).finish) hfeed).trans (finish_run_between _ _)
    simp [hends]
  · have hgoes : ((Decoder.fresh (some o)).run (b :: rest)).finish =
        ((Decoder.fresh (some o')).run rest).finish :=
      congrArg (fun d => (d.run rest).finish) hfeed
    rw [hgoes]
    exact hrest o' htails

/-- Bytes read from inside a character give at most one item more than read from their start. -/
theorem length_finish_inside_le (ho : o.Tails) (bytes : List UInt8) :
    ((Decoder.fresh (some o)).run bytes).finish.length ≤
      (Decoder.start.run bytes).finish.length + 1 := by
  induction bytes generalizing o with
  | nil => simp [Decoder.run, Decoder.finish, Decoder.fresh]
  | cons b rest ih =>
    by_cases hb : o.Admits b
    · have hadmitted := length_finish_admitted hb fun o' htails => ih htails
      have hstart := length_finish_tail ho hb rest
      omega
    · have hbreaks : ((Decoder.fresh (some o)).run (b :: rest)).finish =
          none :: (Decoder.start.run (b :: rest)).finish :=
        (congrArg (fun d => (d.run rest).finish) (feed_refused [] hb)).trans
          (finish_run_between [none] (b :: rest))
      simp [hbreaks]

end

section

variable {before after : List UInt8}

theorem finish_append (h : CharactersWhole before after) :
    (Decoder.start.run (before ++ after)).finish =
      (Decoder.start.run before).finish ++ (Decoder.start.run after).finish := by
  rw [Decoder.run_append]
  generalize hd : Decoder.start.run before = d
  obtain ⟨owed, items⟩ := d
  cases owed with
  | none => exact finish_run_between items after
  | some o =>
    cases after with
    | nil => simp [Decoder.run, Decoder.start, Decoder.finish]
    | cons b rest =>
      have hb : ¬ o.Admits b := h o (by rw [hd]) b (by simp)
      have hbreaks : (⟨some o, items⟩ : Decoder).run (b :: rest) =
          (⟨none, none :: items⟩ : Decoder).run (b :: rest) :=
        congrArg (·.run rest) (feed_refused items hb)
      rw [hbreaks, finish_run_between]
      rfl

theorem length_finish_append_lt (h : ¬ CharactersWhole before after) :
    (Decoder.start.run (before ++ after)).finish.length <
      (Decoder.start.run before).finish.length + (Decoder.start.run after).finish.length := by
  obtain ⟨o, howed, b, hhead, hb⟩ : ∃ o, (Decoder.start.run before).owed = some o ∧
      ∃ b ∈ after.head?, o.Admits b := by
    simpa [CharactersWhole] using h
  obtain ⟨rest, rfl⟩ := List.head?_eq_some_iff.1 hhead
  rw [Decoder.run_append]
  generalize hd : Decoder.start.run before = d at howed
  obtain ⟨owed, items⟩ := d
  obtain rfl : owed = some o := howed
  have htails := (run_inside hd).1
  have hstart := length_finish_tail htails hb rest
  have hadmitted := length_finish_admitted hb fun o' ho' => length_finish_inside_le ho' rest
  have hbefore : (⟨some o, items⟩ : Decoder).finish.length = items.length + 1 := by
    simp [Decoder.finish]
  rw [finish_run_inside, List.length_append, List.length_reverse, hbefore, hstart]
  omega

theorem toList_decodeLossy (bytes : List UInt8) :
    (decodeLossy bytes).toList = (Decoder.start.run bytes).finish.map (·.getD '\uFFFD') := by
  simp [decodeLossy]

theorem segmental_decodeLossy :
    Text.Segmental (fun bytes => (decodeLossy bytes).toList) CharactersWhole where
  nil := rfl
  clean := by
    intro before after h
    simp only [toList_decodeLossy, finish_append h, List.map_append]
  unclean := by
    intro before after h
    simp only [toList_decodeLossy, List.length_map]
    exact length_finish_append_lt h

end

end SlimeServer.Utf8
