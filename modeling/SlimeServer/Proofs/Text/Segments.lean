/-!
# Texts in segments

A function from texts to texts that is applied to one segment after the other need not give what it
gives on the whole text. At a clean cut the two sides give what the whole gives, and at any other
cut they give more. So the segments give what the whole gives exactly where all cuts are clean.
-/
namespace SlimeServer.Text

variable {α β : Type} {f : List α → List β} {Clean : List α → List α → Prop}

structure Segmental (f : List α → List β) (Clean : List α → List α → Prop) : Prop where
  nil : f [] = []
  clean : ∀ {before after}, Clean before after → f (before ++ after) = f before ++ f after
  unclean : ∀ {before after}, ¬ Clean before after →
    (f (before ++ after)).length < (f before).length + (f after).length

def CleanlyCut (Clean : List α → List α → Prop) : List (List α) → Prop
  | [] => True
  | segment :: rest => Clean segment rest.flatten ∧ CleanlyCut Clean rest

namespace Segmental

theorem length_append_le (h : Segmental f Clean) (before after : List α) :
    (f (before ++ after)).length ≤ (f before).length + (f after).length := by
  by_cases hclean : Clean before after
  · simp [h.clean hclean]
  · exact Nat.le_of_lt (h.unclean hclean)

theorem length_flatten_le (h : Segmental f Clean) (segments : List (List α)) :
    (f segments.flatten).length ≤ (segments.flatMap f).length := by
  induction segments with
  | nil => simp [h.nil]
  | cons segment rest ih =>
    have hcut := h.length_append_le segment rest.flatten
    rw [List.flatten_cons, List.flatMap_cons, List.length_append]
    omega

theorem flatMap_eq_iff (h : Segmental f Clean) (segments : List (List α)) :
    segments.flatMap f = f segments.flatten ↔ CleanlyCut Clean segments := by
  induction segments with
  | nil => simp [h.nil, CleanlyCut]
  | cons segment rest ih =>
    rw [List.flatten_cons, List.flatMap_cons, CleanlyCut, ← ih]
    by_cases hclean : Clean segment rest.flatten
    · simp [h.clean hclean, hclean]
    · -- Too much at the first cut is not made up for by the cuts behind it.
      have hcut := h.unclean hclean
      have hrest := h.length_flatten_le rest
      have hne : f segment ++ rest.flatMap f ≠ f (segment ++ rest.flatten) := by
        intro heq
        have hlength := congrArg List.length heq
        rw [List.length_append] at hlength
        omega
      simp [hne, hclean]

end Segmental

end SlimeServer.Text
