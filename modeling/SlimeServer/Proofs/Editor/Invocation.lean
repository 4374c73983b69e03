import SlimeServer.Proofs.Editor.FreshStart
import SlimeServer.Proofs.Evaluator.TopLevel
/-!
# Restarts by their numbers

A request that invokes one of the three restarts on an open level closes it, answers the request
that opened the level, and is told how the restart came out, whether it succeeded or not; a restart
that never comes to an end sends nothing. Any other level or number is refused, and nothing is
changed.
-/
namespace SlimeServer

variable {σ : Type}

/-- The numbers under which the restarts are offered. -/
theorem Recovery.ofIndex?_eq_some {index : Int} {recovery : Recovery} :
    ofIndex? index = some recovery ↔
      (index, recovery) ∈ [(0, quit), (1, resume), (2, restart)] := by
  rw [ofIndex?]
  split
  · rename_i hneg
    constructor
    · intro h
      cases h
    · intro h
      simp only [List.mem_cons, Prod.mk.injEq, List.not_mem_nil, or_false] at h
      omega
  · rename_i hneg
    obtain ⟨n, rfl⟩ := Int.eq_ofNat_of_zero_le (Int.not_lt.1 hneg)
    rw [Int.toNat_natCast]
    match n with
    | 0 | 1 | 2 => cases recovery <;> simp [all]
    | n + 3 =>
      simp only [all, List.mem_cons, Prod.mk.injEq, List.not_mem_nil, or_false]
      constructor
      · intro h
        simp at h
      · intro h
        omega

theorem Sexp.integer?_eq_some {value : Sexp} {n : Int64} :
    value.integer? = some n ↔ value = .integer n := by
  cases value with
  | integer m => simp [integer?]
  | _ => simp [integer?]

theorem levelIn?_eq_some {args : List Sexp} {index level : Nat} :
    levelIn? args index = some level ↔
      0 < level ∧ ∃ number : Int64, args[index]? = some (.integer number) ∧
        number.toInt = level := by
  constructor
  · intro h
    obtain ⟨number, hnumber, h⟩ := Option.bind_eq_some_iff.1 h
    obtain ⟨value, hvalue, hinteger⟩ := Option.bind_eq_some_iff.1 hnumber
    rw [Sexp.integer?_eq_some] at hinteger
    split at h
    · cases h
      exact ⟨by omega, number, hinteger ▸ hvalue, by omega⟩
    · cases h
  · rintro ⟨hpos, number, hnumber, hlevel⟩
    have hpositive : (0 : Int) < level := by omega
    simp only [levelIn?, hnumber, Option.bind_eq_bind, Option.bind_some, Sexp.integer?, hlevel,
      hpositive, if_true, Int.toNat_natCast]

/-- A request that invokes a restart by its number, on a level that is open. -/
structure Request.Picks (r : Request) (d : Debugger) (level : Nat) (closed : DebuggerLevel)
    (recovery : Recovery) : Prop where
  operation : EditorOperation.table.get? r.operation = some .invokeRestart
  args : ∃ (number index : Int64) (more : List Sexp),
    r.args = .integer number :: .integer index :: more ∧ number.toInt = level ∧
      (index.toInt, recovery) ∈ [(0, .quit), (1, .resume), (2, .restart)]
  isOpen : d.get? level = some closed

section

variable {r : Request} {d : Debugger} {level : Nat} {closed : DebuggerLevel} {recovery : Recovery}

theorem Debugger.levels_closeFrom (h : d.get? level = some closed) :
    (d.closeFrom level).levels = d.levels.take (level - 1) := by
  cases level with
  | zero => cases h
  | succ i => exact (levels_of_get? h).2

theorem EditorOperation.recovery?_eq_some {args : List Sexp} :
    invokeRestart.recovery? args d = some (level, recovery) ↔
      0 < level ∧ ∃ (number index : Int64) (more : List Sexp),
        args = .integer number :: .integer index :: more ∧ number.toInt = level ∧
          (index.toInt, recovery) ∈ [(0, .quit), (1, .resume), (2, .restart)] := by
  constructor
  · intro h
    obtain ⟨level', hlevel, h⟩ := Option.bind_eq_some_iff.1 h
    obtain ⟨index, hindex, h⟩ := Option.bind_eq_some_iff.1 h
    obtain ⟨recovery', hrecovery, h⟩ := Option.bind_eq_some_iff.1 h
    cases h
    obtain ⟨hpos, number, hfirst, hnumber⟩ := levelIn?_eq_some.1 hlevel
    obtain ⟨value, hsecond, hinteger⟩ := Option.bind_eq_some_iff.1 hindex
    rw [Sexp.integer?_eq_some.1 hinteger] at hsecond
    match args with
    | [] => cases hfirst
    | [_] => cases hsecond
    | _ :: _ :: more =>
      cases hfirst
      cases hsecond
      exact ⟨hpos, number, index, more, rfl, hnumber, Recovery.ofIndex?_eq_some.1 hrecovery⟩
  · rintro ⟨hpos, number, index, more, rfl, hnumber, hindex⟩
    have hlevel : levelIn? (.integer number :: .integer index :: more) 0 = some level :=
      levelIn?_eq_some.2 ⟨hpos, number, rfl, hnumber⟩
    have hrecovery := Recovery.ofIndex?_eq_some.2 hindex
    simp [recovery?, hlevel, Sexp.integer?, hrecovery]

/-- What is picked is what the request invokes. -/
theorem Request.picks_iff :
    r.Picks d level closed recovery ↔
      EditorOperation.table.get? r.operation = some .invokeRestart ∧
        EditorOperation.invokeRestart.recovery? r.args d = some (level, recovery) ∧
        d.get? level = some closed := by
  constructor
  · intro h
    have hpos : 0 < level := by
      refine Nat.pos_of_ne_zero fun hzero => ?_
      have hopen := h.isOpen
      rw [hzero] at hopen
      cases hopen
    exact ⟨h.operation, EditorOperation.recovery?_eq_some.2 ⟨hpos, h.args⟩, h.isOpen⟩
  · rintro ⟨hop, hpicked, hopen⟩
    exact ⟨hop, (EditorOperation.recovery?_eq_some.1 hpicked).2, hopen⟩

end

/-- The next evaluator that a session starts neither connects nor ends, and no time runs out. -/
def Site.Hangs (site : Site σ) (s : Session σ) : Prop :=
  ∃ port peer, site.attempt s.attempts s.settings = .started port peer .never

namespace Session

variable {site : Site σ} {recovery : Recovery} {s : Session σ}

theorem waits_adopt (b : Behaviour σ) (port : Nat) (peer : Peer σ) (s : Session σ) :
    Op.waits (adopt b port peer s).1 = false := by
  have hwrite := (Link.writeStdin_written b initCommand
    (.connected peer port s.settings.tuning)).1
  rw [adopt]
  generalize Link.writeStdin b initCommand (.connected peer port s.settings.tuning) = answer
    at hwrite
  obtain ⟨got, l⟩ := answer
  cases got with
  | ok u => rfl
  | error stop => exact hwrite

theorem launch_stalled (h : (launch site s).1 = .error .stalled) : site.Hangs s := by
  rw [launch] at h
  cases hattempt : site.attempt s.attempts s.settings with
  | failed message => simp [hattempt] at h
  | started port peer arrival =>
    rw [hattempt] at h
    cases arrival with
    | never => exact ⟨port, peer, hattempt⟩
    | connected => exact absurd h (Op.ne_stalled (waits_adopt _ _ _ _))
    | exited _ _ | refused _ | late => cases h

theorem perform_quit_of_none (hs : s.link = none) :
    perform site .quit s = (.ok (), { s with debugger := .empty }) := by
  rw [perform, Op.bind_ok (Op.modify_apply _ _), Op.bind_ok (Op.get_apply _)]
  simp only [hs]
  rfl

theorem perform_quit_of_failed {l : Link σ} (hs : s.link = some l) (hf : l.state = .failed) :
    perform site .quit s = (.ok (), { s with debugger := .empty }) := by
  have hfailed : l.isFailed = true := decide_eq_true hf
  rw [perform, Op.bind_ok (Op.modify_apply _ _), Op.bind_ok (Op.get_apply _)]
  simp only [hs, hfailed, if_true]
  rfl

theorem perform_quit_of_usable {l : Link σ} (hs : s.link = some l) (hf : l.state ≠ .failed) :
    perform site .quit s = ((Link.resetToTopLevel site.behaviour l).1,
      { s with
        link := some (Link.resetToTopLevel site.behaviour l).2
        debugger := .empty }) := by
  have hfailed : l.isFailed = false := decide_eq_false hf
  rw [perform, Op.bind_ok (Op.modify_apply _ _), Op.bind_ok (Op.get_apply _)]
  simp only [hs, hfailed, Bool.false_eq_true, if_false, onLink]

/-- Only to restart may wait for ever. -/
theorem perform_stalled (h : (perform site recovery s).1 = .error .stalled) :
    recovery = .restart ∧ site.Hangs s := by
  cases recovery with
  | resume => cases h
  | restart => exact ⟨rfl, launch_stalled (s := { s with debugger := .empty }) h⟩
  | quit =>
    cases hs : s.link with
    | none => rw [perform_quit_of_none hs] at h; cases h
    | some l =>
      by_cases hf : l.state = .failed
      · rw [perform_quit_of_failed hs hf] at h
        cases h
      · rw [perform_quit_of_usable hs hf] at h
        exact absurd h (Op.ne_stalled (Link.resetToTopLevel_written site.behaviour l).1)

/-- To quit writes the way back to the top level to a link that takes it, and nothing else. -/
theorem perform_quit_written {t : Session σ} {got : Except (Stop Report) Unit}
    (h : perform site .quit s = (got, t)) :
    t.retired = s.retired ∧ (s.link = none → t.link = none) ∧
      ∀ l, s.link = some l → ∃ l', t.link = some l' ∧
        (l.TakesReset site.behaviour →
          l'.peer.sent = l.peer.sent ++ [(.stdin, topLevelCommand)]) ∧
        (¬ l.TakesReset site.behaviour → l'.peer.sent = l.peer.sent) := by
  cases hs : s.link with
  | none =>
    rw [perform_quit_of_none hs] at h
    cases h
    exact ⟨rfl, fun _ => hs, fun l hl => by cases hl⟩
  | some l =>
    by_cases hf : l.state = .failed
    · rw [perform_quit_of_failed hs hf] at h
      cases h
      refine ⟨rfl, fun hnone => (by cases hnone), fun _ hl => ?_⟩
      cases hl
      exact ⟨l, hs, fun htakes => absurd hf htakes.usable, fun _ => rfl⟩
    · rw [perform_quit_of_usable hs hf] at h
      cases h
      refine ⟨rfl, fun hnone => (by cases hnone), fun _ hl => ?_⟩
      cases hl
      exact ⟨_, rfl, (Link.resetToTopLevel_written site.behaviour l).2⟩

end Session

section

variable {site : Site σ} {r : Request} {x : Exchange σ} {level : Nat} {closed : DebuggerLevel}
  {recovery : Recovery}

/-- A restart on an open level closes it and tells how it came out, if it comes to an end. -/
theorem handleRequest_picks (hnumbered : x.session.debugger.Numbered)
    (h : r.Picks x.session.debugger level closed recovery)
    {got : Except (Stop Report) Unit} {s : Session σ}
    (hperform : Session.perform site recovery
      { x.session with debugger := x.session.debugger.closeFrom level } = (got, s)) :
    (got ≠ .error .stalled → handleRequest site r x = (.ok (), ⟨s, x.sent ++ [
      Message.debugReturn level, (Reply.abort closed.message).toMessage closed.callId,
      (Reply.abort (((Op.failure? got).map Report.message).getD "NIL")).toMessage r.callId]⟩)) ∧
    (got = .error .stalled → handleRequest site r x = (.error .stalled, ⟨s, x.sent⟩)) := by
  obtain ⟨hop, hpicked, hopen⟩ := Request.picks_iff.1 h
  have hlevel : closed.level = level := hnumbered.level_eq hopen
  have hhandle : EditorOperation.invokeRestart.handle site r.args x =
      Handler.recover site level recovery x := by
    have heq := Handler.invokeRestart_eq site r.args x
    rw [hpicked] at heq
    exact heq
  obtain ⟨hstalled, hdone⟩ := Handler.recover_some hopen hperform
  constructor
  · intro hends
    rw [handleRequest_of_reply hop (hhandle.trans (hdone hends))]
    simp only [Exchange.tell, Message.closed, hlevel, List.append_assoc, List.cons_append,
      List.nil_append]
  · intro hwaits
    rw [handleRequest, workOn_eq hop, hhandle.trans (hstalled hwaits)]

/-- A request for a restart that picks none is refused. -/
theorem handleRequest_refuses (site : Site σ)
    (hop : EditorOperation.table.get? r.operation = some .invokeRestart)
    (h : ∀ level closed recovery, ¬ r.Picks x.session.debugger level closed recovery) :
    ∃ message, handleRequest site r x = (.ok (), x.tell ((Reply.abort
      (RequestError.invalidArguments "swank:invoke-nth-restart-for-emacs"
        message).message).toMessage r.callId)) := by
  have hhandle : ∃ message, EditorOperation.invokeRestart.handle site r.args x = (.error (.failed
      (.invalidArguments "swank:invoke-nth-restart-for-emacs" message)), x) := by
    have heq := Handler.invokeRestart_eq site r.args x
    cases hpicked : EditorOperation.invokeRestart.recovery? r.args x.session.debugger with
    | none =>
      rw [hpicked] at heq
      exact heq
    | some picked =>
      obtain ⟨level, recovery⟩ := picked
      rw [hpicked] at heq
      cases hopen : x.session.debugger.get? level with
      | some closed => exact absurd (Request.picks_iff.2 ⟨hop, hpicked, hopen⟩) (h _ _ _)
      | none =>
        obtain ⟨message, hrefused⟩ : ∃ message, Handler.recover site level recovery x = (.error
            (.failed (.invalidArguments "swank:invoke-nth-restart-for-emacs" message)), x) :=
          Handler.recover_none hopen
        exact ⟨message, heq.trans hrefused⟩
  obtain ⟨message, hhandle⟩ := hhandle
  exact ⟨message, by rw [handleRequest, workOn_eq hop, hhandle]⟩

end

/-- A request to invoke a restart by its number, in every state that a run can bring about. If it
picks an open level and one of the three restarts, the editor is told that the level is closed, then
the request of the level is answered, then the request itself with how the restart came out; only
where a restart waits for an evaluator that never comes is nothing sent. To quit and to restart
leave no level, to continue leaves those below. To quit writes its line to a link that has not
failed, whose process is found alive and whose standard input takes it, and writes nothing
otherwise. A request that picks nothing is refused with one reply, and leaves the session as it
is. -/
theorem restarts_by_number (site : Site σ) :
    (∀ (x : Exchange σ) (payloads : List (List UInt8)), x.session.debugger = .empty →
      (handlePayloads site payloads x).2.session.debugger.Numbered) ∧
    ∀ (x : Exchange σ) (r : Request), x.session.debugger.Numbered →
      EditorOperation.table.get? r.operation = some .invokeRestart →
      (∀ level closed recovery, r.Picks x.session.debugger level closed recovery →
        ∃ got s, Session.perform site recovery
            { x.session with debugger := x.session.debugger.closeFrom level } = (got, s) ∧
          (got ≠ .error .stalled → handleRequest site r x = (.ok (), ⟨s, x.sent ++ [
            .list [.symbol ":debug-return", .integer 0, .integer (Int64.ofNat level), .nil],
            .list [.symbol ":return", .list [.symbol ":abort", .string closed.message],
              .integer closed.callId],
            .list [.symbol ":return", .list [.symbol ":abort",
              .string (((Op.failure? got).map Report.message).getD "NIL")],
              .integer r.callId]]⟩)) ∧
          (got = .error .stalled → recovery = .restart ∧ site.Hangs x.session ∧
            handleRequest site r x = (.error .stalled, ⟨s, x.sent⟩)) ∧
          s.debugger.levels = (match recovery with
            | .resume => x.session.debugger.levels.take (level - 1)
            | .quit | .restart => []) ∧
          (recovery = .quit → s.retired = x.session.retired ∧
            (x.session.link = none → s.link = none) ∧
            ∀ l, x.session.link = some l → ∃ l', s.link = some l' ∧
              (l.TakesReset site.behaviour → l'.peer.sent = l.peer.sent ++ [(.stdin, "reset")]) ∧
              (¬ l.TakesReset site.behaviour → l'.peer.sent = l.peer.sent))) ∧
      ((∀ level closed recovery, ¬ r.Picks x.session.debugger level closed recovery) →
        ∃ message, handleRequest site r x = (.ok (), ⟨x.session, x.sent ++ [
          .list [.symbol ":return", .list [.symbol ":abort", .string
            ("Invalid arguments for swank:invoke-nth-restart-for-emacs: " ++ message)],
            .integer r.callId]]⟩)) := by
  refine ⟨fun x payloads hempty =>
    (ranked_handlePayloads site payloads (Session.ranked_of_empty hempty)).numbered,
    fun x r hnumbered hop => ⟨fun level closed recovery hpicks => ?_, fun hnone => ?_⟩⟩
  · cases hperform : Session.perform site recovery
        { x.session with debugger := x.session.debugger.closeFrom level } with
    | mk got s =>
      obtain ⟨hends, hwaits⟩ := handleRequest_picks hnumbered hpicks hperform
      refine ⟨got, s, rfl, fun hgot => ?_, fun hgot => ?_, ?_, ?_⟩
      · rw [hends hgot, Message.debugReturn_eq, Reply.toMessage_abort, Reply.toMessage_abort]
      · obtain ⟨hrestart, hhangs⟩ :=
          Session.perform_stalled ((congrArg Prod.fst hperform).trans hgot)
        exact ⟨hrestart, hhangs, hwaits hgot⟩
      · rw [Session.perform_debugger hperform]
        cases recovery with
        | resume => exact Debugger.levels_closeFrom hpicks.isOpen
        | quit | restart => rfl
      · rintro rfl
        exact Session.perform_quit_written hperform
  · obtain ⟨message, hrun⟩ := handleRequest_refuses site hop hnone
    exact ⟨message, hrun⟩

def restartRequest (level index callId : Int64) : Request :=
  ⟨"swank:invoke-nth-restart-for-emacs", [.integer level, .integer index], none, .truth, callId⟩

theorem get?_restartRequest (level index callId : Int64) :
    EditorOperation.table.get? (restartRequest level index callId).operation =
      some .invokeRestart := by
  rw [restartRequest]
  exact EditorOperation.get?_invokeRestart

def raisedExchange (l : Link Unit) : Exchange Unit :=
  ⟨{ Session.start Config.Layer.empty.resolve with
      link := some l
      debugger := (Debugger.empty.push 1 (.raised "boom" [])).push 2 (.raised "bang" []) }, []⟩

theorem numbered_raised (l : Link Unit) : (raisedExchange l).session.debugger.Numbered :=
  (Debugger.numbered_empty.push 1 _).push 2 _

theorem takesReset_fresh : (Link.fresh 4005).TakesReset connectingSite.behaviour :=
  ⟨by decide, rfl, rfl⟩

theorem picks_raised (l : Link Unit) (recovery : Recovery) (index : Int64)
    (hindex : (index.toInt, recovery) ∈ [(0, .quit), (1, .resume), (2, .restart)]) :
    (restartRequest 2 index 3).Picks (raisedExchange l).session.debugger 2
      ⟨2, 2, "bang", [], false⟩ recovery :=
  ⟨get?_restartRequest 2 index 3, ⟨2, index, [], rfl, rfl, hindex⟩, rfl⟩

def bangMessages : List Sexp := [
  .list [.symbol ":debug-return", .integer 0, .integer 2, .nil],
  .list [.symbol ":return", .list [.symbol ":abort", .string "bang"], .integer 2],
  .list [.symbol ":return", .list [.symbol ":abort", .string "NIL"], .integer 3]]

/-- To quit succeeds and writes its line, to continue leaves the outer level, and there is no third
level. -/
theorem restarts_by_number_raised :
    (∃ s l, handleRequest connectingSite (restartRequest 2 0 3) (raisedExchange (.fresh 4005)) =
        (.ok (), ⟨s, bangMessages⟩) ∧
      s.debugger.levels = [] ∧ s.link = some l ∧ l.peer.sent = [(.stdin, "reset")]) ∧
    (∃ s, handleRequest connectingSite (restartRequest 2 1 3) (raisedExchange (.fresh 4005)) =
        (.ok (), ⟨s, bangMessages⟩) ∧
      s.debugger.levels = [⟨1, 1, "boom", [], false⟩]) ∧
    (∃ s, handleRequest connectingSite (restartRequest 2 2 3) (raisedExchange (.fresh 4005)) =
        (.ok (), ⟨s, bangMessages⟩) ∧
      s.debugger.levels = []) ∧
    ∃ message, handleRequest connectingSite (restartRequest 3 0 3) (raisedExchange (.fresh 4005)) =
      (.ok (), ⟨(raisedExchange (.fresh 4005)).session, [.list [.symbol ":return",
        .list [.symbol ":abort", .string
          ("Invalid arguments for swank:invoke-nth-restart-for-emacs: " ++ message)],
        .integer 3]]⟩) := by
  have h := (restarts_by_number connectingSite).2 (raisedExchange (.fresh 4005))
  refine ⟨?_, ?_, ?_, ?_⟩
  · obtain ⟨got, s, hperform, hrun, -, hlevels, hquit⟩ :=
      (h _ (numbered_raised _) (get?_restartRequest 2 0 3)).1 _ _ _
        (picks_raised _ .quit 0 (by decide))
    have hgot : got = .ok () := (congrArg Prod.fst hperform).symm
    obtain ⟨-, -, hlink⟩ := hquit rfl
    obtain ⟨l, hl, hsent, -⟩ := hlink _ rfl
    rw [hgot] at hrun
    exact ⟨s, l, hrun nofun, hlevels, hl, hsent takesReset_fresh⟩
  · obtain ⟨got, s, hperform, hrun, -, hlevels, -⟩ :=
      (h _ (numbered_raised _) (get?_restartRequest 2 1 3)).1 _ _ _
        (picks_raised _ .resume 1 (by decide))
    have hgot : got = .ok () := (congrArg Prod.fst hperform).symm
    rw [hgot] at hrun
    exact ⟨s, hrun nofun, hlevels⟩
  · obtain ⟨got, s, hperform, hrun, -, hlevels, -⟩ :=
      (h _ (numbered_raised _) (get?_restartRequest 2 2 3)).1 _ _ _
        (picks_raised _ .restart 2 (by decide))
    have hgot : got = .ok () := (congrArg Prod.fst hperform).symm
    rw [hgot] at hrun
    exact ⟨s, hrun nofun, hlevels⟩
  · refine (h _ (numbered_raised _) (get?_restartRequest 3 0 3)).2 ?_
    rintro level closed recovery ⟨-, ⟨number, index, more, hargs, hlevel, -⟩, hopen⟩
    have hnumber : number = 3 := by
      simp only [restartRequest, List.cons.injEq, Sexp.integer.injEq] at hargs
      exact hargs.1.symm
    have hthree : level = 3 := by
      rw [hnumber] at hlevel
      exact Int.ofNat.inj hlevel.symm
    rw [hthree] at hopen
    cases hopen

def cloggedLink : Link Unit :=
  { Link.fresh 4005 with
    peer := { (Link.fresh 4005).peer with stdinFault := some "Broken pipe (os error 32)" } }

/-- To quit writes nothing to a process that lives but does not take the line. -/
theorem reset_not_written_clogged :
    (restartRequest 2 0 3).Picks (raisedExchange cloggedLink).session.debugger 2
      ⟨2, 2, "bang", [], false⟩ .quit ∧
    cloggedLink.state ≠ .failed ∧ cloggedLink.peer.loss? = none ∧
    ∃ y l, handleRequest connectingSite (restartRequest 2 0 3) (raisedExchange cloggedLink) =
        (.ok (), y) ∧
      y.session.link = some l ∧ l.peer.loss? = none ∧
      l.peer.sent ≠ cloggedLink.peer.sent ++ [(.stdin, "reset")] ∧
      y.sent = [
        .list [.symbol ":debug-return", .integer 0, .integer 2, .nil],
        .list [.symbol ":return", .list [.symbol ":abort", .string "bang"], .integer 2],
        .list [.symbol ":return", .list [.symbol ":abort",
          .string "Failed to write to evaluator: Broken pipe (os error 32)"], .integer 3]] := by
  have hperform : Session.perform connectingSite .quit
      { (raisedExchange cloggedLink).session with
        debugger := (raisedExchange cloggedLink).session.debugger.closeFrom 2 } =
      (.error (.failed (.lost "Failed to write to evaluator: Broken pipe (os error 32)")),
        { (raisedExchange cloggedLink).session with
          link := some { cloggedLink with state := .failed }
          debugger := .empty }) := rfl
  have hpicks := picks_raised cloggedLink .quit 0 (by decide)
  have hrun := (handleRequest_picks (numbered_raised cloggedLink) hpicks hperform).1 nofun
  exact ⟨hpicks, by decide, rfl, _, _, hrun, rfl, rfl, by decide, rfl⟩

end SlimeServer
