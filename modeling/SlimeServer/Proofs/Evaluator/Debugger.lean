import SlimeServer.Evaluator.Debugger
/-!
# Levels by their numbers

A level stores its number, and its place among the open levels has one. However levels are opened
and closed, the two agree. So a level is found under the number it stores, and to close one leaves
the levels with smaller numbers.
-/
namespace SlimeServer
namespace Debugger

variable {d : Debugger} {level : Nat} {found : DebuggerLevel}

theorem isSome_get?_iff : (d.get? level).isSome ↔ 1 ≤ level ∧ level ≤ d.depth := by
  cases level with
  | zero => simp [get?]
  | succ i =>
    rw [get?, isSome_getElem?, depth]
    omega

theorem mem_levels_of_get? (h : d.get? level = some found) : found ∈ d.levels := by
  cases level with
  | zero => cases h
  | succ i => exact List.mem_of_getElem? h

theorem innermost?_eq (d : Debugger) : d.innermost? = d.get? d.depth := by
  rw [innermost?, depth, List.getLast?_eq_getElem?]
  cases h : d.levels.length with
  | zero => simp [get?, List.length_eq_zero_iff.1 h]
  | succ i => rfl

theorem closeFrom_levels (d : Debugger) (level : Nat) :
    (d.closeFrom level).levels <+: d.levels := by
  unfold closeFrom
  split
  · exact List.take_prefix _ _
  · exact List.prefix_rfl

theorem levels_of_get? {i : Nat} {closed : DebuggerLevel} (h : d.get? (i + 1) = some closed) :
    d.levels = d.levels.take i ++ closed :: d.levels.drop (i + 1) ∧
      (d.closeFrom (i + 1)).levels = d.levels.take i := by
  obtain ⟨hi, hclosed⟩ := List.getElem?_eq_some_iff.1 h
  have hdepth : 1 ≤ i + 1 ∧ i + 1 ≤ d.depth := ⟨by omega, hi⟩
  constructor
  · rw [← hclosed, ← List.drop_eq_getElem_cons hi, List.take_append_drop]
  · rw [closeFrom, if_pos hdepth, Nat.add_sub_cancel]

def Numbered (d : Debugger) : Prop := ∀ i level, d.levels[i]? = some level → level.level = i + 1

theorem numbered_empty : empty.Numbered := by
  intro i level h
  cases h

theorem Numbered.of_fewer {d' : Debugger} (h : d.Numbered) (hd : d'.levels <+: d.levels) :
    d'.Numbered := by
  intro i level hi
  obtain ⟨inner, hlevels⟩ := hd
  obtain ⟨hlt, -⟩ := List.getElem?_eq_some_iff.1 hi
  refine h i level ?_
  rw [← hlevels, List.getElem?_append_left hlt]
  exact hi

theorem Numbered.push (h : d.Numbered) (callId : Int64) (report : Report) :
    (d.push callId report).Numbered := by
  intro i level hi
  rcases Nat.lt_or_ge i d.levels.length with hlt | hge
  · rw [Debugger.push, List.getElem?_append_left hlt] at hi
    exact h i level hi
  · rw [Debugger.push, List.getElem?_append_right hge] at hi
    obtain ⟨hin, rfl⟩ := List.getElem?_eq_some_iff.1 hi
    have hi : i = d.levels.length := by
      simp only [List.length_singleton] at hin
      omega
    subst hi
    simp [nextLevel, depth]

theorem Numbered.level_eq (h : d.Numbered) (hfound : d.get? level = some found) :
    found.level = level := by
  cases level with
  | zero => cases hfound
  | succ i => exact h i found hfound

theorem Numbered.get?_eq_some_iff (h : d.Numbered) :
    d.get? level = some found ↔ found ∈ d.levels ∧ found.level = level := by
  constructor
  · exact fun hfound => ⟨mem_levels_of_get? hfound, h.level_eq hfound⟩
  · rintro ⟨hmem, rfl⟩
    obtain ⟨i, hi⟩ := List.mem_iff_getElem?.1 hmem
    rw [h i found hi]
    exact hi

/-- The levels outside of a place are those with smaller numbers. -/
theorem Numbered.take_levels (h : d.Numbered) (count : Nat) :
    d.levels.take count = d.levels.filter fun inner => inner.level ≤ count := by
  have houter : ∀ inner ∈ d.levels.take count, inner.level ≤ count := by
    intro inner hinner
    obtain ⟨i, hi⟩ := List.mem_iff_getElem?.1 hinner
    obtain ⟨hlt, -⟩ := List.getElem?_eq_some_iff.1 hi
    rw [List.length_take] at hlt
    rw [List.getElem?_take_of_lt (by omega)] at hi
    rw [h i inner hi]
    omega
  have hinner : ∀ inner ∈ d.levels.drop count, ¬ inner.level ≤ count := by
    intro inner hinner
    obtain ⟨i, hi⟩ := List.mem_iff_getElem?.1 hinner
    rw [List.getElem?_drop] at hi
    rw [h _ inner hi]
    omega
  conv => rhs; rw [← List.take_append_drop count d.levels]
  rw [List.filter_append, List.filter_eq_self.2 (by simpa using houter),
    List.filter_eq_nil_iff.2 (by simpa using hinner), List.append_nil]

end Debugger

inductive DebuggerOperation where
  | push (callId : Int64) (report : Report)
  | take (level : Nat)
  | clear
  deriving DecidableEq, Repr

namespace Debugger

def perform (d : Debugger) : DebuggerOperation → Debugger
  | .push callId report => d.push callId report
  | .take level => (d.take level).2
  | .clear => .empty

def performAll (d : Debugger) (operations : List DebuggerOperation) : Debugger :=
  operations.foldl perform d

/-- A level is opened inside of all others. It is the next one, holds what failed, and the others
stay. -/
structure Opens (d : Debugger) (callId : Int64) (report : Report) : Prop where
  levels : (d.push callId report).levels = d.levels ++ [d.nextLevel callId report]
  found : (d.push callId report).get? (d.depth + 1) = some (d.nextLevel callId report)
  level : (d.nextLevel callId report).level = d.depth + 1
  holds : (d.nextLevel callId report).callId = callId ∧
    (d.nextLevel callId report).message = report.message ∧
    (d.nextLevel callId report).frames = report.frames ∧
    (d.nextLevel callId report).fatal = report.fatal

/-- A level that is open is handed back, and those with smaller numbers are left as they were. One
that is not open is not closed. -/
structure Closes (d : Debugger) (level : Nat) : Prop where
  closed : 1 ≤ level → level ≤ d.depth → ∃ closed, d.get? level = some closed ∧
    d.take level = (some closed, ⟨d.levels.filter fun outer => outer.level < level⟩)
  unknown : ¬ (1 ≤ level ∧ level ≤ d.depth) → d.take level = (none, d)

variable {d : Debugger}

theorem Numbered.perform (h : d.Numbered) (operation : DebuggerOperation) :
    (d.perform operation).Numbered := by
  cases operation with
  | push callId report => exact h.push callId report
  | take level =>
    refine h.of_fewer ?_
    simp only [Debugger.perform, take_eq]
    exact d.closeFrom_levels level
  | clear => exact numbered_empty

theorem Numbered.performAll (h : d.Numbered) (operations : List DebuggerOperation) :
    (d.performAll operations).Numbered := by
  induction operations generalizing d with
  | nil => exact h
  | cons operation rest ih => exact ih (h.perform operation)

theorem opens (d : Debugger) (callId : Int64) (report : Report) : d.Opens callId report where
  levels := rfl
  found := List.getElem?_concat_length ..
  level := rfl
  holds := ⟨rfl, rfl, rfl, rfl⟩

theorem Numbered.closes (h : d.Numbered) (level : Nat) : d.Closes level where
  closed := by
    intro hpos hle
    obtain ⟨closed, hclosed⟩ := Option.isSome_iff_exists.1 (isSome_get?_iff.2 ⟨hpos, hle⟩)
    refine ⟨closed, hclosed, ?_⟩
    obtain ⟨i, rfl⟩ := Nat.exists_eq_add_of_le' hpos
    have hlevels := (levels_of_get? hclosed).2
    rw [h.take_levels i] at hlevels
    have hsmaller : ∀ outer : DebuggerLevel, (outer.level ≤ i) = (outer.level < i + 1) :=
      fun outer => propext Nat.lt_succ_iff.symm
    simp only [hsmaller] at hlevels
    rw [take_eq, hclosed, ← hlevels]
  unknown := by
    intro hunknown
    have hmissing : d.get? level = none := by
      rw [← Option.not_isSome_iff_eq_none, isSome_get?_iff]
      exact hunknown
    rw [take_eq, hmissing, closeFrom, if_neg hunknown]

/-- However levels were opened and closed, a level's number is its place: the open levels are found
under the numbers from one to the depth, the innermost one under the depth. A level is opened inside
of all others, and closed together with those inside it. -/
theorem levels_by_number (operations : List DebuggerOperation) :
    let d := empty.performAll operations
    (∀ i level, d.levels[i]? = some level → level.level = i + 1) ∧
      (∀ level, (d.get? level).isSome ↔ 1 ≤ level ∧ level ≤ d.depth) ∧
      (∀ level found, d.get? level = some found ↔ found ∈ d.levels ∧ found.level = level) ∧
      (∀ found, d.innermost? = some found ↔ found ∈ d.levels ∧ found.level = d.depth) ∧
      (∀ callId report, d.Opens callId report) ∧ ∀ level, d.Closes level := by
  have hnumbered : (empty.performAll operations).Numbered :=
    numbered_empty.performAll operations
  refine ⟨hnumbered, fun level => isSome_get?_iff, fun level found =>
    hnumbered.get?_eq_some_iff, fun found => ?_, fun callId report => opens _ callId report,
    fun level => hnumbered.closes level⟩
  rw [innermost?_eq]
  exact hnumbered.get?_eq_some_iff

end Debugger
end SlimeServer
