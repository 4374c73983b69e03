import SlimeServer.Proofs.Editor.Levels
import SlimeServer.Proofs.Editor.Twins
/-!
# Fresh starts

After a restart nothing is left of what came before that a later request could tell: two sessions
with the same settings go on alike, whatever state their links and levels were in, if the
evaluators started for them are alike. The evaluator that is replaced is never written to again.
Where the start fails, there is no evaluator and no level, and requests open levels from the first
one on.
-/
namespace SlimeServer

open Op (Matches)

variable {σ : Type}

/-- The two sites start the same evaluators, each from the attempt with the number given for it. -/
structure Site.StartsAlike (site site' : Site σ) (settings : Config.Settings) (n n' : Nat) :
    Prop where
  behaviour : site.behaviour = site'.behaviour
  processId : site.processId = site'.processId
  machine : site.machine = site'.machine
  attempts : ∀ k, site.attempt (n + k) settings = site'.attempt (n' + k) settings

theorem Site.StartsAlike.next {site site' : Site σ} {settings : Config.Settings} {n n' : Nat}
    (h : site.StartsAlike site' settings n n') :
    site.StartsAlike site' settings (n + 1) (n' + 1) := by
  refine ⟨h.behaviour, h.processId, h.machine, fun k => ?_⟩
  rw [Nat.add_assoc, Nat.add_assoc, Nat.add_comm 1 k]
  exact h.attempts (k + 1)

namespace Session

/-- The sessions agree on what requests look at, and on the evaluators that are started later. -/
def Indistinct (site site' : Site σ) (s t : Session σ) : Prop :=
  s.Alike t ∧ site.StartsAlike site' s.settings s.attempts t.attempts

section

variable {site site' : Site σ} {s t : Session σ}

theorem adopt_alike {b : Behaviour σ} {port : Nat} {peer : Peer σ} (h : s.Alike t)
    (hstart : site.StartsAlike site' s.settings s.attempts t.attempts) :
    (adopt b port peer s).1 = (adopt b port peer t).1 ∧
      Indistinct site site' (adopt b port peer s).2 (adopt b port peer t).2 := by
  unfold adopt
  rw [← congrArg Config.Settings.tuning h.settings]
  generalize Link.writeStdin b initCommand (.connected peer port s.settings.tuning) = answer
  obtain ⟨got, l⟩ := answer
  cases got with
  | ok _ => exact ⟨rfl, ⟨h.settings, rfl, h.debugger⟩, hstart⟩
  | error stop => exact ⟨rfl, ⟨h.settings, h.link, h.debugger⟩, hstart⟩

/-- A start does not depend on the link that it replaces. -/
theorem launch_alike (hsettings : s.settings = t.settings) (hdebugger : s.debugger = t.debugger)
    (hstart : site.StartsAlike site' s.settings s.attempts t.attempts) :
    (launch site s).1 = (launch site' t).1 ∧
      Indistinct site site' (launch site s).2 (launch site' t).2 := by
  have hattempt : site.attempt s.attempts s.settings = site'.attempt t.attempts t.settings := by
    have hfirst := hstart.attempts 0
    rw [Nat.add_zero, Nat.add_zero] at hfirst
    exact hfirst.trans (congrArg _ hsettings)
  rw [launch, launch, hattempt]
  cases site'.attempt t.attempts t.settings with
  | failed message => exact ⟨rfl, ⟨hsettings, rfl, hdebugger⟩, hstart.next⟩
  | started port peer arrival =>
    cases arrival with
    | connected =>
      rw [hstart.behaviour]
      exact adopt_alike (s := { s.retire with attempts := s.attempts + 1 })
        (t := { t.retire with attempts := t.attempts + 1 })
        ⟨hsettings, rfl, hdebugger⟩ hstart.next
    | _ =>
      refine ⟨?_, ⟨hsettings, rfl, hdebugger⟩, hstart.next⟩
      simp only [hsettings]

theorem twins_of_startsAlike {settings : Config.Settings} {n n' : Nat}
    (h : site.StartsAlike site' settings n n') :
    Site.Twins (Indistinct site site') site site' where
  behaviour := h.behaviour
  processId := h.processId
  machine := h.machine
  alike _ _ hst := hst.1
  linked _ _ _ hst := ⟨⟨hst.1.settings, rfl, hst.1.debugger⟩, hst.2⟩
  leveled _ _ _ hst := ⟨⟨hst.1.settings, hst.1.link, rfl⟩, hst.2⟩
  launched _ _ hst := launch_alike hst.1.settings hst.1.debugger hst.2
  quitted _ _ hst := ⟨⟨hst.1.settings, rfl, rfl⟩, hst.2⟩

theorem restart_alike (hsettings : s.settings = t.settings)
    (hstart : site.StartsAlike site' s.settings s.attempts t.attempts) :
    (restart site s).1 = (restart site' t).1 ∧
      Indistinct site site' (restart site s).2 (restart site' t).2 :=
  launch_alike (s := { s with debugger := .empty }) (t := { t with debugger := .empty })
    hsettings rfl hstart

theorem link_of_adopt_failed {b : Behaviour σ} {port : Nat} {peer : Peer σ} {stop : Stop Report}
    (hs : s.link = none) (h : adopt b port peer s = (.error stop, t)) : t.link = none := by
  rw [adopt] at h
  generalize Link.writeStdin b initCommand (.connected peer port s.settings.tuning) = answer at h
  obtain ⟨got, l⟩ := answer
  cases got with
  | ok _ => cases h
  | error stop =>
    cases h
    exact hs

theorem link_of_launch_failed {stop : Stop Report} (h : launch site s = (.error stop, t)) :
    t.link = none := by
  rw [launch] at h
  cases ha : site.attempt s.attempts s.settings with
  | failed message =>
    rw [ha] at h
    cases h
    rfl
  | started port peer arrival =>
    rw [ha] at h
    cases arrival with
    | connected => exact link_of_adopt_failed rfl h
    | _ =>
      cases h
      rfl

end

end Session

section

variable {site : Site σ} {x : Exchange σ}

/-- A request that restarts leaves the session that the restart leaves. -/
theorem session_handleRequest_restart {r : Request} {level : Nat}
    (h : r.recovery? x.session.debugger = some (level, .restart)) :
    (handleRequest site r x).2.session = (Session.restart site x.session).2 := by
  obtain ⟨closed, hclosed, hwork⟩ :
    ∃ closed, _ ∧ workOn site r x = Handler.recover site level .restart x := workOn_recovery h
  cases hperform : Session.perform site .restart
      { x.session with debugger := x.session.debugger.closeFrom level } with
  | mk done s =>
    have hs : (Session.restart site x.session).2 = s := congrArg Prod.snd hperform
    obtain ⟨hstalled, hdone⟩ := Handler.recover_some hclosed hperform
    rw [handleRequest, hwork, hs]
    by_cases hend : done = .error .stalled
    · rw [hstalled hend]
    · rw [hdone hend]
      rfl

end

/-- Two sessions with the same settings, whatever their links, their levels and their evaluators
have come to, are restarted alike if the same evaluators are started for them. Over all further
payloads they send the same messages and have the same link and levels. The evaluator that is
replaced stays as it was. After a start that fails there is no link and no level, and until another
evaluator is started, requests that ask for one open levels for a fatal failure, numbered from the
first one on. -/
theorem restart_isolates (site site' : Site σ) (s t : Session σ)
    (hsettings : s.settings = t.settings)
    (hstart : site.StartsAlike site' s.settings s.attempts t.attempts) :
    (∀ (place : Site σ) (x : Exchange σ) (r : Request) (level : Nat),
      r.recovery? x.session.debugger = some (level, .restart) →
        (handleRequest place r x).2.session = (Session.restart place x.session).2) ∧
    (Session.restart site s).1 = (Session.restart site' t).1 ∧
    (∀ (payloads : List (List UInt8)) (before before' : List Sexp),
      let x := handlePayloads site payloads ⟨(Session.restart site s).2, before⟩
      let y := handlePayloads site' payloads ⟨(Session.restart site' t).2, before'⟩
      x.1 = y.1 ∧ x.2.session.link = y.2.session.link ∧
        x.2.session.debugger = y.2.session.debugger ∧
        ∃ messages, x.2.sent = before ++ messages ∧ y.2.sent = before' ++ messages) ∧
    (∀ l, s.link = some l → ∀ (payloads : List (List UInt8)) (before : List Sexp),
      s.retired ++ [l.peer] <+:
        (handlePayloads site payloads ⟨(Session.restart site s).2, before⟩).2.session.retired) ∧
    (Session.restart site s).2.debugger = .empty ∧
    ∀ report, (Session.restart site s).1 = .error (.failed report) →
      (Session.restart site s).2.link = none ∧
      ∀ (payloads : List (List UInt8)) (before : List Sexp),
        let y := (handlePayloads site payloads ⟨(Session.restart site s).2, before⟩).2
        y.session.link = none →
          y.session.debugger.Numbered ∧
          (∀ level ∈ y.session.debugger.levels, level.fatal = true) ∧
          ∀ r, r.asksEvaluator = true →
            handleRequest site r y = (.ok (), y.enterDebugger r.callId Session.noEvaluator) := by
  obtain ⟨hout, hleft⟩ := Session.restart_alike hsettings hstart
  have hperform : Session.perform site .restart s = Session.restart site s := rfl
  have hempty : (Session.restart site s).2.debugger = .empty := Session.perform_debugger hperform
  refine ⟨fun _ _ _ _ h => session_handleRequest_restart h, hout, ?_, ?_, hempty, ?_⟩
  · intro payloads before before'
    have hruns := (Session.twins_of_startsAlike hstart).handlePayloads payloads _ _
      (Exchange.beside_start hleft before before')
    obtain ⟨hanswers, ⟨halike, -⟩, hsent⟩ := hruns
    exact ⟨hanswers, halike.link, halike.debugger, hsent⟩
  · intro l hl payloads before
    have hgiven : s.retired ++ [l.peer] <+: (Session.restart site s).2.retired := by
      have hretired : s.retire.retired = s.retired ++ [l.peer] := by simp [Session.retire, hl]
      rw [← hretired]
      exact Session.retired_launch { s with debugger := .empty }
    exact hgiven.trans
      (quarantine_handlePayloads site payloads ⟨(Session.restart site s).2, before⟩).1
  · intro report hfailed
    refine ⟨Session.link_of_launch_failed (Prod.ext hfailed rfl), fun payloads before hnone => ?_⟩
    have hranked := ranked_handlePayloads site payloads
      (x := ⟨(Session.restart site s).2, before⟩) (Session.ranked_of_empty hempty)
    exact ⟨hranked.numbered, hranked.fatal hnone,
      fun r hasks => handleRequest_refused (Handler.refuses_none hnone) hasks⟩

def connectingSite : Site Unit :=
  ⟨fun _ _ => .started 4005 (.start () []) .connected, .answering [] [], 0, "X86_64"⟩

def strandedSession : Session Unit := (failedExchange.enterDebugger 7 Link.refusal).session

theorem restart_isolates_stranded :
    (strandedSession.settings = nestedStart.session.settings ∧
      connectingSite.StartsAlike connectingSite strandedSession.settings strandedSession.attempts
        nestedStart.session.attempts) ∧
    (Session.restart connectingSite strandedSession).1 = .ok () ∧
    (let x := handlePayloads connectingSite nestedPayloads
        ⟨(Session.restart connectingSite strandedSession).2, [.nil]⟩
      let y := handlePayloads connectingSite nestedPayloads
        ⟨(Session.restart connectingSite nestedStart.session).2, []⟩
      x.1 = y.1 ∧ x.2.session.link = y.2.session.link ∧
        x.2.session.debugger = y.2.session.debugger ∧
        ∃ messages, x.2.sent = [.nil] ++ messages ∧ y.2.sent = [] ++ messages) ∧
    strandedSession.retired ++ [(Link.fresh 4005).peer] <+:
      (handlePayloads connectingSite nestedPayloads
        ⟨(Session.restart connectingSite strandedSession).2, []⟩).2.session.retired ∧
    ∃ report y, (Session.restart (.barren (.answering [] [])) strandedSession).1 =
        .error (.failed report) ∧
      handlePayloads (.barren (.answering [] [])) []
        ⟨(Session.restart (.barren (.answering [] [])) strandedSession).2, []⟩ = (.ok (), y) ∧
      handleRequest (.barren (.answering [] [])) (evalRequest "1" 1) y =
        (.ok (), y.enterDebugger 1 Session.noEvaluator) := by
  have hasks : (evalRequest "1" 1).asksEvaluator = true := by
    rw [Request.asksEvaluator, evalRequest, EditorOperation.get?_interactiveEval]
    rfl
  have hstart (site : Site Unit)
      (h : ∀ n m settings, site.attempt n settings = site.attempt m settings) :
      site.StartsAlike site strandedSession.settings 0 0 := ⟨rfl, rfl, rfl, fun k => h _ _ _⟩
  obtain ⟨-, -, hruns, hretired, -, -⟩ := restart_isolates connectingSite connectingSite
    strandedSession nestedStart.session rfl (hstart _ fun _ _ _ => rfl)
  obtain ⟨-, -, -, -, -, hfails⟩ := restart_isolates (.barren (.answering [] []))
    (.barren (.answering [] [])) strandedSession nestedStart.session rfl (hstart _ fun _ _ _ => rfl)
  refine ⟨⟨rfl, hstart _ fun _ _ _ => rfl⟩, rfl, hruns nestedPayloads [.nil] [],
    hretired _ rfl nestedPayloads [], .lost "", _, rfl, rfl, ?_⟩
  exact ((hfails (.lost "") rfl).2 [] [] rfl).2.2 (evalRequest "1" 1) hasks

end SlimeServer
