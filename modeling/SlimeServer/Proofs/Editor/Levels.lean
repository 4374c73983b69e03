import SlimeServer.Proofs.Editor.Quarantine
import SlimeServer.Proofs.Editor.Recovery
import SlimeServer.Proofs.Evaluator.Debugger
/-!
# Levels over a run

The levels are numbered by their depth at all times. While there is no evaluator, every level is
open for a failure that is fatal.
-/
namespace SlimeServer

open Op (Upholds)

variable {σ : Type}

namespace Session

structure Ranked (s : Session σ) : Prop where
  numbered : s.debugger.Numbered
  fatal : s.link = none → ∀ level ∈ s.debugger.levels, level.fatal = true

theorem ranked_of_empty {s : Session σ} (h : s.debugger = .empty) : s.Ranked := by
  refine ⟨h ▸ Debugger.numbered_empty, fun _ level hlevel => ?_⟩
  rw [h] at hlevel
  cases hlevel

theorem Ranked.of_fewer {s t : Session σ} (h : s.Ranked)
    (hlevels : t.debugger.levels <+: s.debugger.levels) (hlink : t.link = none → s.link = none) :
    t.Ranked :=
  ⟨h.numbered.of_fewer hlevels, fun hnone level hlevel =>
    h.fatal (hlink hnone) level (hlevels.subset hlevel)⟩

theorem Ranked.push {s : Session σ} (h : s.Ranked) {report : Report}
    (hreport : s.link = none → report.fatal = true) (callId : Int64) :
    Ranked { s with debugger := s.debugger.push callId report } := by
  refine ⟨h.numbered.push callId report, fun hnone level hlevel => ?_⟩
  rcases List.mem_append.1 hlevel with hold | hnew
  · exact h.fatal hnone level hold
  · rw [List.mem_singleton.1 hnew]
    exact hreport hnone

theorem ranked_perform {site : Site σ} {recovery : Recovery} {s t : Session σ}
    {got : Except (Stop Report) Unit} (h : s.Ranked) (hrun : perform site recovery s = (got, t)) :
    t.Ranked := by
  cases recovery with
  | resume =>
    cases hrun
    refine h.of_fewer List.prefix_rfl fun hnone => ?_
    exact Option.map_eq_none_iff.1 hnone
  | quit => exact ranked_of_empty (perform_debugger hrun)
  | restart => exact ranked_of_empty (perform_debugger hrun)

end Session

namespace Handler

variable {site : Site σ}

/-- The levels stay as they should, and without an evaluator every failure is fatal. -/
def ranking : Contract (Exchange σ) RequestError where
  kept x := x.session.Ranked
  failed error x := x.session.Ranked ∧
    ∀ report, error = .report report → x.session.link = none → report.fatal = true
  waiting x := x.session.Ranked

/-- Work on the link that is refused where there is none. -/
theorem ranking_of_standing {α : Type} {op : Handler σ α}
    (hnone : ∀ x, x.session.link = none →
      op x = (.error (.failed (.report Session.noEvaluator)), x))
    (hsome : ∀ x l, x.session.link = some l → (op x).2.session.link.isSome ∧
      (op x).2.session.debugger = x.session.debugger) :
    Upholds ranking op := by
  intro x got y hrun hx
  cases hlink : x.session.link with
  | none =>
    rw [hnone x hlink] at hrun
    cases hrun
    refine ⟨hx, fun report hreport _ => ?_⟩
    cases hreport
    rfl
  | some l =>
    obtain ⟨hstays, hlevels⟩ := hsome x l hlink
    rw [hrun] at hstays hlevels
    have hy : y.session.Ranked := hx.of_fewer (hlevels ▸ List.prefix_rfl) fun h => by
      simp [h] at hstays
    cases got with
    | ok _ => exact hy
    | error stop =>
      cases stop with
      | failed error => exact ⟨hy, fun _ _ h => by simp [h] at hstays⟩
      | stalled => exact hy

theorem ranking_execute (command : String) :
    Upholds ranking (onLink (Link.execute site.behaviour command)) := by
  refine ranking_of_standing (fun x hx => onLink_none hx) fun x l hx => ?_
  rw [onLink_some hx]
  exact ⟨rfl, rfl⟩

theorem ranking_evaluate (form : String) : Upholds ranking (evaluate site form) := by
  refine ranking_of_standing (fun x hx => evaluate_none hx form) fun x l hx => ?_
  rw [evaluate, Op.bind_apply, onLink_some hx]
  cases heval : Link.eval site.behaviour form l with
  | mk got l₁ =>
    cases got with
    | error stop => exact ⟨rfl, rfl⟩
    | ok e =>
      cases hrest : e.rest site.behaviour l₁ with
      | mk items result =>
        obtain ⟨answer, l₂⟩ := result
        simp only [Except.mapError]
        rw [follow_eq rfl hrest]
        exact ⟨rfl, rfl⟩

theorem ranking_recover (level : Nat) (recovery : Recovery) :
    Upholds ranking (recover site level recovery) := by
  intro x got y hrun hx
  cases hopen : x.session.debugger.get? level with
  | none =>
    obtain ⟨message, hrefused⟩ : ∃ message, recover site level recovery x = (.error (.failed
        (.invalidArguments "swank:invoke-nth-restart-for-emacs" message)), x) := recover_none hopen
    rw [hrefused] at hrun
    cases hrun
    exact ⟨hx, nofun⟩
  | some closed =>
    cases hperform : Session.perform site recovery
        { x.session with debugger := x.session.debugger.closeFrom level } with
    | mk done s =>
      have hclosed : Session.Ranked
          { x.session with debugger := x.session.debugger.closeFrom level } :=
        hx.of_fewer (x.session.debugger.closeFrom_levels level) id
      have hs : s.Ranked := Session.ranked_perform hclosed hperform
      obtain ⟨hstalled, hdone⟩ := recover_some hopen hperform
      by_cases hend : done = .error .stalled
      · rw [hstalled hend] at hrun
        cases hrun
        exact hs
      · rw [hdone hend] at hrun
        cases hrun
        exact hs

theorem ranking_steps : StepsUphold ranking site where
  evaluated := ranking_evaluate
  executed := ranking_execute
  acknowledged _ _ hx _ := hx.1.of_fewer List.prefix_rfl fun h => Option.map_eq_none_iff.1 h
  told _ _ hx := hx
  refused _ _ hrefusal hx := ⟨hx, fun report hreport => absurd hreport (hrefusal report)⟩
  recovered := ranking_recover
  quitted _ _ := Session.ranked_of_empty rfl

end Handler

section

variable {x : Exchange σ}

/-- The levels are as they should be after every run over payloads, whatever becomes of it. -/
theorem ranked_handlePayloads (site : Site σ) (payloads : List (List UInt8))
    (hx : x.session.Ranked) :
    (handlePayloads site payloads x).2.session.Ranked := by
  have hupholds : Upholds (Handler.served Handler.ranking) (handlePayloads site payloads) :=
    upholds_handlePayloads fun r _ => Handler.ranking_steps.handleRequest (fun _ _ hy => hy)
      (fun _ _ _ hy _ => hy.1)
      (fun _ callId report hy => hy.1.push (hy.2 report rfl) callId) r
  cases hrun : handlePayloads site payloads x with
  | mk got y =>
    have hy := hupholds x got y hrun hx
    cases got with
    | ok _ => exact hy
    | error stop =>
      cases stop with
      | failed error => exact error.elim
      | stalled => exact hy

end

end SlimeServer
