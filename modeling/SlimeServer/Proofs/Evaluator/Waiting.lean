import SlimeServer.Proofs.Evaluator.Operations
/-!
# Waiting for ever

An operation of the link waits for ever only for a living evaluator from which nothing more is to
come.
-/
namespace SlimeServer

variable {σ : Type}

namespace Link

open Op (Obeys)

def silence : Law (Link σ) := .waiting fun l => l.peer.Silent

theorem moves_waiting (P : Link σ → Prop) : Moves (.waiting P) :=
  fun _ _ hw => absurd hw Bool.false_ne_true

theorem steps_silence : LinkSteps (silence : Law (Link σ)) where
  moves := moves_waiting _
  waits _ _ hsilent _ := hsilent
  states _ _ hw := absurd hw Bool.false_ne_true

end Link

namespace Evaluation

variable {b : Behaviour σ} {e e' : Evaluation} {l l' : Link σ}

theorem silent_of_next (h : e.next b l = (.stalled, e', l')) : l'.peer.Silent := by
  fun_induction next b e l with
  | case1 => simp at h
  | case2 => simp at h
  | case3 e l hq hf e₁ l₁ ha ih => exact ih h
  | case4 => simp at h
  | case5 e l hq hf l₁ ha =>
    simp only [Prod.mk.injEq, true_and] at h
    obtain ⟨-, rfl⟩ := h
    have hsilent := Link.obeys_advance b Link.steps_silence e l
    rw [ha] at hsilent
    exact hsilent rfl

theorem silent_of_rest {items : List EvalItem}
    (h : e.rest b l = (items, .error .stalled, l')) : l'.peer.Silent := by
  fun_induction rest b e l generalizing items with
  | case1 e l item e₁ l₁ hn items' answer l₂ hr ih =>
    simp only [Prod.mk.injEq] at h
    obtain ⟨-, rfl, rfl⟩ := h
    exact ih hr
  | case2 => simp at h
  | case3 e l e₁ l₁ hn =>
    simp only [Prod.mk.injEq, true_and] at h
    exact h.2 ▸ silent_of_next hn
  | case4 => simp at h

end Evaluation

end SlimeServer
