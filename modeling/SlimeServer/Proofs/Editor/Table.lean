import Mathlib.Data.List.Nodup
import SlimeServer.Editor.Operations
/-!
# Looking up operations

A name finds the operation that was entered last under its key, and keys are compared letter by
letter. No two names of operations have the same key, so each finds its own.
-/
namespace SlimeServer

def keyChar (c : Char) : Char := if c.toLower = ':' ∨ c.toLower = '-' then '_' else c.toLower

theorem operationKey_eq_iff {a b : String} :
    operationKey a = operationKey b ↔ a.toList.map keyChar = b.toList.map keyChar := by
  have hkey : ∀ name : String, (operationKey name).toList = name.toList.map keyChar := by
    intro name
    simp only [operationKey, Text.lowerAscii, String.toList_ofList, List.map_map]
    rfl
  rw [← String.toList_inj, hkey, hkey]

theorem Table.get?_insert {α : Type} (t : Table α) (name other : String) (operation : α) :
    (t.insert name operation).get? other =
      if operationKey other = operationKey name then some operation else t.get? other := by
  by_cases h : operationKey other = operationKey name
  · rw [if_pos h]
    simp [get?, insert, h]
  · rw [if_neg h]
    have hne : (operationKey other == operationKey name) = false := by simp [h]
    simp only [get?, insert, List.lookup_cons, hne]
    -- What is taken out of the table has another key.
    induction t.entries with
    | nil => rfl
    | cons entry rest ih =>
      by_cases he : entry.1 = operationKey name
      · rw [List.filter_cons_of_neg (by simp [he]), List.lookup_cons, he, hne]
        exact ih
      · rw [List.filter_cons_of_pos (by simp [he]), List.lookup_cons, List.lookup_cons, ih]

/-- Of the operations that were entered under the key of a name, the last one is found. -/
theorem Table.get?_ofList {α : Type} (entries : List (String × α)) (name : String) :
    (ofList entries).get? name = (entries.reverse.find? fun entry =>
      operationKey name = operationKey entry.1).map Prod.snd := by
  -- The list grows at its end, where the last entry is.
  rw [← entries.reverse_reverse]
  generalize entries.reverse = newest
  induction newest with
  | nil => rfl
  | cons entry rest ih =>
    have hinsert : ofList (entry :: rest).reverse =
        (ofList rest.reverse).insert entry.1 entry.2 := by
      rw [ofList, List.reverse_cons, List.foldl_append]
      rfl
    rw [hinsert, get?_insert, ih, List.reverse_reverse, List.reverse_reverse, List.find?_cons]
    by_cases h : operationKey name = operationKey entry.1 <;> simp [h]

/-- Where no two names have the same key, every name finds its operation. -/
theorem Table.get?_ofList_of_mem {α : Type} {entries : List (String × α)}
    (hkeys : (entries.map fun entry => entry.1.toList.map keyChar).Nodup) {name : String}
    {operation : α} (hmem : (name, operation) ∈ entries) :
    (ofList entries).get? name = some operation := by
  obtain ⟨found, hfound⟩ : ∃ found, (entries.reverse.find? fun entry =>
      operationKey name = operationKey entry.1) = some found := by
    refine Option.isSome_iff_exists.1 (List.find?_isSome.2 ⟨(name, operation), ?_, by simp⟩)
    exact List.mem_reverse.2 hmem
  have hkey : operationKey name = operationKey found.1 := by
    simpa using List.find?_some hfound
  have hsame : found = (name, operation) := List.inj_on_of_nodup_map hkeys
    (List.mem_reverse.1 (List.mem_of_find?_eq_some hfound)) hmem (operationKey_eq_iff.1 hkey.symm)
  rw [get?_ofList, hfound, hsame]
  rfl

namespace EditorOperation

theorem nodup_keys : (names.map fun entry => entry.1.toList.map keyChar).Nodup := by
  decide +kernel

theorem get?_of_mem {name : String} {operation : EditorOperation}
    (h : (name, operation) ∈ names) : table.get? name = some operation := by
  rw [table]
  exact Table.get?_ofList_of_mem nodup_keys h

theorem get?_connectionInfo : table.get? "swank:connection-info" = some connectionInfo :=
  get?_of_mem (by simp [names])

theorem get?_interactiveEval : table.get? "swank:interactive-eval" = some interactiveEval :=
  get?_of_mem (by simp [names])

theorem get?_listenerEval : table.get? "swank-repl:listener-eval" = some listenerEval :=
  get?_of_mem (by simp [names])

theorem get?_compileFile : table.get? "swank:compile-file-for-emacs" = some compileFile :=
  get?_of_mem (by simp [names])

theorem get?_invokeRestart :
    table.get? "swank:invoke-nth-restart-for-emacs" = some invokeRestart :=
  get?_of_mem (by simp [names])

theorem get?_sldbAbort : table.get? "swank:sldb-abort" = some quitInnermost :=
  get?_of_mem (by simp [names])

theorem get?_simpleCompletions :
    table.get? "swank:simple-completions" = some simpleCompletions :=
  get?_of_mem (by simp [names])

theorem get?_fuzzyCompletions : table.get? "swank:fuzzy-completions" = some fuzzyCompletions :=
  get?_of_mem (by simp [names])

theorem get?_quitLisp : table.get? "swank:quit-lisp" = some quitLisp :=
  get?_of_mem (by simp [names])

end EditorOperation

end SlimeServer
