import SlimeServer.Proofs.Evaluator.Failed
import SlimeServer.Proofs.Evaluator.Lines
/-!
# The way back to the top level

To go back to the top level is to write one line. It is written exactly to a link that has not
failed and whose living process takes it, and nothing is waited for.
-/
namespace SlimeServer

variable {σ : Type} {b : Behaviour σ}

namespace Link

section

variable {l : Link σ}

/-- To write to the standard input comes to an end, and the line is written where it is taken. -/
theorem writeStdin_written (b : Behaviour σ) (text : String) (l : Link σ) :
    Op.waits (writeStdin b text l).1 = false ∧
      (writeStdin b text l).2.peer.sent = l.peer.sent ++
        if l.peer.stdinFault = none then [(.stdin, Text.trim text)] else [] := by
  cases hwrite : l.peer.write b .stdin (Text.trim text) with
  | ok q =>
    have hfault : l.peer.stdinFault = none := by
      cases hfault : l.peer.stdinFault with
      | none => rfl
      | some reason => simp [Peer.write, Peer.fault?, hfault] at hwrite
    rw [writeStdin_ok hwrite, if_pos hfault]
    exact ⟨rfl, Peer.sent_of_write hwrite⟩
  | error reason =>
    have hfault : l.peer.stdinFault ≠ none := by
      intro hfault
      simp [Peer.write, Peer.fault?, hfault] at hwrite
    obtain ⟨report, hfails⟩ := writeStdin_error hwrite
    rw [hfails, if_neg hfault, List.append_nil]
    exact ⟨rfl, l.peer.sent_act b .look⟩

end

/-- The way back to the top level can be written: the link has not failed, its process is found
alive, and its standard input takes a line after that. -/
structure TakesReset (b : Behaviour σ) (l : Link σ) : Prop where
  usable : l.state ≠ .failed
  alive : (l.peer.act b .look).loss? = none
  taken : ((l.peer.act b .look).act b .look).stdinFault = none

/-- To go back to the top level comes to an end, and writes its line exactly where it is taken. -/
theorem resetToTopLevel_written (b : Behaviour σ) (l : Link σ) :
    Op.waits (resetToTopLevel b l).1 = false ∧
      (l.TakesReset b →
        (resetToTopLevel b l).2.peer.sent = l.peer.sent ++ [(.stdin, topLevelCommand)]) ∧
      (¬ l.TakesReset b → (resetToTopLevel b l).2.peer.sent = l.peer.sent) := by
  by_cases hs : l.state = .failed
  · rw [resetToTopLevel_failed hs]
    exact ⟨rfl, fun h => absurd hs h.usable, fun _ => rfl⟩
  cases hloss : (l.peer.act b .look).loss? with
  | some report =>
    have hensure : ensureUsable b l = (.error (.failed report),
        ({ l with peer := l.peer.act b .look } : Link σ).note report) := by
      rw [ensureUsable_eq hs, noting, checkAlive_some hloss]
    have hreset : resetToTopLevel b l = _ := Op.bind_error hensure
    rw [hreset]
    exact ⟨rfl, fun h => by simp [h.alive] at hloss, fun _ => l.peer.sent_act b .look⟩
  | none =>
    -- The line is written once the process was found alive and its output was dropped.
    let l₁ : Link σ := { l with peer := ((l.peer.act b .look).act b .look).dropOutput }
    have hsent : l₁.peer.sent = l.peer.sent := by simp [l₁, Peer.dropOutput]
    have hreset : resetToTopLevel b l = (noting (writeStdin b topLevelCommand) >>= fun _ =>
        Op.modify fun l => { l with state := .idle }) l₁ := by
      rw [resetToTopLevel, Op.bind_ok (ensureUsable_ok hs hloss)]
      rfl
    have htrim : Text.trim topLevelCommand = topLevelCommand := by decide +kernel
    obtain ⟨hends, hwritten⟩ := writeStdin_written b topLevelCommand l₁
    obtain ⟨hgot, hpeer⟩ := noting_fst (writeStdin b topLevelCommand) l₁
    rw [← hgot] at hends
    rw [← hpeer, hsent, htrim] at hwritten
    have hlast : Op.waits (resetToTopLevel b l).1 = false ∧ (resetToTopLevel b l).2.peer.sent =
        l.peer.sent ++ if l₁.peer.stdinFault = none then [(.stdin, topLevelCommand)] else [] := by
      rw [hreset, Op.bind_apply]
      generalize noting (writeStdin b topLevelCommand) l₁ = answer at hends hwritten
      obtain ⟨got, l₂⟩ := answer
      cases got with
      | ok u => exact ⟨rfl, hwritten⟩
      | error stop => exact ⟨hends, hwritten⟩
    have htaken : l.TakesReset b ↔ l₁.peer.stdinFault = none :=
      ⟨fun h => h.taken, fun h => ⟨hs, hloss, h⟩⟩
    refine ⟨hlast.1, fun h => ?_, fun h => ?_⟩
    · rw [hlast.2, if_pos (htaken.1 h)]
    · rw [hlast.2, if_neg fun h' => h (htaken.2 h'), List.append_nil]

end Link

end SlimeServer
