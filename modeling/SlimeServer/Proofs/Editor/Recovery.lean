import SlimeServer.Proofs.Editor.Accounting
import SlimeServer.Proofs.Editor.Table
/-!
# What recoveries close

A recovery answers the request of the level that it is invoked on. The levels inside of it go with
it, and to quit or to restart takes away those outside of it as well; their requests are never
answered. So over a run every request is answered, or its level is open, or its level was taken away
by a recovery that was invoked on another one.
-/
namespace SlimeServer

open Op (Upholds)

variable {σ : Type}

namespace Debugger

def left (d : Debugger) (level : Nat) : Recovery → Debugger
  | .resume => d.closeFrom level
  | .quit | .restart => .empty

def discarded (d : Debugger) (level : Nat) : Recovery → List DebuggerLevel
  | .resume => d.levels.drop level
  | .quit | .restart => d.levels.eraseIdx (level - 1)

/-- A level that a recovery is invoked on is closed, and every other one is taken away or left. -/
theorem levels_perm {d : Debugger} {level : Nat} {closed : DebuggerLevel}
    (h : d.get? level = some closed) (recovery : Recovery) :
    d.levels.Perm (closed :: (d.discarded level recovery ++ (d.left level recovery).levels)) := by
  cases level with
  | zero => cases h
  | succ i =>
    obtain ⟨hlevels, hclose⟩ := levels_of_get? h
    have hmiddle : d.levels.Perm (closed :: (d.levels.take i ++ d.levels.drop (i + 1))) := by
      conv => lhs; rw [hlevels]
      exact List.perm_middle
    cases recovery with
    | resume =>
      rw [left, hclose, discarded]
      exact hmiddle.trans (List.perm_append_comm.cons closed)
    | quit | restart =>
      rw [left, discarded, empty, List.append_nil, Nat.add_sub_cancel,
        List.eraseIdx_eq_take_drop_succ]
      exact hmiddle

end Debugger

def levelIn? (args : List Sexp) (index : Nat) : Option Nat := do
  let level ← args[index]?.bind Sexp.integer?
  if 0 < level.toInt then some level.toInt.toNat else none

/-- The level and the recovery that an operation picks. -/
def EditorOperation.recovery? (operation : EditorOperation) (args : List Sexp) (d : Debugger) :
    Option (Nat × Recovery) :=
  match operation with
  | invokeRestart => do
    let level ← levelIn? args 0
    let index ← args[1]?.bind Sexp.integer?
    let recovery ← Recovery.ofIndex? index.toInt
    some (level, recovery)
  | quitInnermost => d.innermost?.map fun innermost => (innermost.level, .quit)
  | resumeInnermost => d.innermost?.map fun innermost => (innermost.level, .resume)
  | _ => none

theorem EditorOperation.closesLevels_of_recovery? {operation : EditorOperation} {args : List Sexp}
    {d : Debugger} {picked : Nat × Recovery} (h : operation.recovery? args d = some picked) :
    operation.closesLevels = true ∧ operation ≠ .quitLisp := by
  cases operation with
  | invokeRestart | quitInnermost | resumeInnermost => exact ⟨rfl, by simp⟩
  | _ => cases h

namespace Request

def recovery? (r : Request) (d : Debugger) : Option (Nat × Recovery) :=
  ((EditorOperation.table.get? r.operation).bind fun operation =>
    operation.recovery? r.args d).filter fun (level, _) => (d.get? level).isSome

def discardedIds (r : Request) (d : Debugger) : List Int64 :=
  match r.recovery? d with
  | some (level, recovery) => (d.discarded level recovery).map DebuggerLevel.callId
  | none => []

end Request

namespace Handler

variable {site : Site σ} {args : List Sexp} {x : Exchange σ}

theorem levelArg_some {operation : String} {index level : Nat}
    (h : levelIn? args index = some level) :
    (levelArg operation args index : Handler σ Nat) = pure level := by
  obtain ⟨number, hnumber, h⟩ := Option.bind_eq_some_iff.1 h
  split at h
  · rename_i hpos
    cases h
    rw [levelArg, integerArg_some hnumber, pure_bind, if_pos hpos]
  · cases h

theorem levelArg_none {operation : String} {index : Nat} (h : levelIn? args index = none) :
    ∃ message, (levelArg operation args index : Handler σ Nat) =
      Op.fail (.invalidArguments operation message) := by
  cases hnumber : args[index]?.bind Sexp.integer? with
  | none =>
    obtain ⟨message, hfail⟩ := integerArg_none (σ := σ) hnumber
    exact ⟨message, by rw [levelArg, hfail, Op.fail_bind]⟩
  | some number =>
    have hpos : ¬ 0 < number.toInt := by
      intro hpos
      simp only [levelIn?, hnumber, Option.bind_eq_bind, Option.bind_some, hpos, if_true] at h
      cases h
    exact ⟨_, by rw [levelArg, integerArg_some hnumber, pure_bind, if_neg hpos]⟩

/-- An operation invokes the recovery that was picked. Where none was, it leaves everything as it
is, with a reply or a refusal. -/
def Invokes (site : Site σ) (x : Exchange σ) :
    Option (Nat × Recovery) → Except (Stop RequestError) Reply × Exchange σ → Prop
  | some (level, recovery), answer => answer = recover site level recovery x
  | none, answer => (∃ reply, answer = (.ok reply, x)) ∨
    ∃ error, error.IsRefusal ∧ answer = (.error (.failed error), x)

/-- The arguments of a restart by its number pick a recovery, or they are invalid. -/
theorem invokeRestart_eq (site : Site σ) (args : List Sexp) (x : Exchange σ) :
    match EditorOperation.invokeRestart.recovery? args x.session.debugger with
    | some (level, recovery) => invokeRestart site args x = recover site level recovery x
    | none => ∃ message, invokeRestart site args x = (.error (.failed
        (.invalidArguments "swank:invoke-nth-restart-for-emacs" message)), x) := by
  simp only [EditorOperation.recovery?, invokeRestart, Option.bind_eq_bind]
  cases hlevel : levelIn? args 0 with
  | none =>
    obtain ⟨message, hfail⟩ := levelArg_none (σ := σ) hlevel
    rw [hfail]
    exact ⟨message, rfl⟩
  | some level =>
    rw [levelArg_some hlevel, pure_bind]
    cases hindex : args[1]?.bind Sexp.integer? with
    | none =>
      obtain ⟨message, hfail⟩ := integerArg_none (σ := σ) hindex
      rw [hfail]
      exact ⟨message, rfl⟩
    | some index =>
      rw [integerArg_some hindex, pure_bind, Option.bind_some, Option.bind_some]
      cases Recovery.ofIndex? index.toInt with
      | none => exact ⟨_, rfl⟩
      | some recovery => exact rfl

theorem invokes_restart (site : Site σ) (args : List Sexp) (x : Exchange σ) :
    Invokes site x (EditorOperation.invokeRestart.recovery? args x.session.debugger)
      (invokeRestart site args x) := by
  have heq := invokeRestart_eq site args x
  cases hpicked : EditorOperation.invokeRestart.recovery? args x.session.debugger with
  | some picked =>
    rw [hpicked] at heq
    exact heq
  | none =>
    rw [hpicked] at heq
    obtain ⟨message, heq⟩ := heq
    exact .inr ⟨_, RequestError.isRefusal_invalidArguments _ message, heq⟩

theorem invokes_innermost (site : Site σ) (recovery : Recovery) (x : Exchange σ) :
    Invokes site x
      (x.session.debugger.innermost?.map fun innermost => (innermost.level, recovery))
      (recoverInnermost site recovery x) := by
  rw [recoverInnermost, Op.bind_ok (Op.get_apply x)]
  cases x.session.debugger.innermost? with
  | none => exact .inl ⟨_, rfl⟩
  | some innermost => exact rfl

theorem invokes_handle {operation : EditorOperation} (hcloses : operation.closesLevels = true)
    (hstays : operation ≠ .quitLisp) (site : Site σ) (args : List Sexp) (x : Exchange σ) :
    Invokes site x (operation.recovery? args x.session.debugger)
      (operation.handle site args x) := by
  cases operation with
  | invokeRestart => exact invokes_restart site args x
  | quitInnermost => exact invokes_innermost site .quit x
  | resumeInnermost => exact invokes_innermost site .resume x
  | quitLisp => exact absurd rfl hstays
  | _ => cases hcloses

/-- A recovery on a level that is not open is refused. -/
theorem Invokes.filter {picked? : Option (Nat × Recovery)}
    {answer : Except (Stop RequestError) Reply × Exchange σ} (h : Invokes site x picked? answer) :
    Invokes site x (picked?.filter fun (level, _) => (x.session.debugger.get? level).isSome)
      answer := by
  cases picked? with
  | none => exact h
  | some picked =>
    obtain ⟨level, recovery⟩ := picked
    cases hopen : x.session.debugger.get? level with
    | some closed => simpa [Option.filter, hopen] using h
    | none =>
      obtain ⟨message, hrefused⟩ : ∃ message, recover site level recovery x =
          (.error (.failed (.invalidArguments "swank:invoke-nth-restart-for-emacs" message)), x) :=
        recover_none hopen
      have hnone : (some (level, recovery)).filter
          (fun (level, _) => (x.session.debugger.get? level).isSome) = none := by
        simp [Option.filter, hopen]
      rw [hnone]
      exact .inr ⟨_, RequestError.isRefusal_invalidArguments _ message, h.trans hrefused⟩

end Handler

open Message (answered? answeredIds answeredIds_append)

namespace Exchange

def Stands (x y : Exchange σ) : Prop :=
  y.session.debugger = x.session.debugger ∧ Handler.Sends (fun m => answered? m = none) x y

theorem Stands.trans {x y z : Exchange σ} (h : Stands x y) (h' : Stands y z) : Stands x z :=
  ⟨h'.1.trans h.1, h.2.trans h'.2⟩

def standing : Law (Exchange σ) :=
  .ofRelation Stands (fun _ => ⟨rfl, Handler.sends_nothing rfl⟩) Stands.trans

/-- Between two states, the requests answered and those left open are the ones open before and one
more. -/
def Pays (callId : Int64) (x y : Exchange σ) : Prop :=
  ∃ messages, y.sent = x.sent ++ messages ∧
    (answeredIds messages ++ y.session.debugger.callIds).Perm
      (x.session.debugger.callIds ++ [callId])

variable {x y : Exchange σ}

theorem pays_tell (h : x.Stands y) (reply : Reply) (callId : Int64) :
    Pays callId x (y.tell (reply.toMessage callId)) := by
  obtain ⟨hlevels, messages, hsent, hquiet⟩ := h
  refine ⟨messages ++ [reply.toMessage callId], by rw [tell, hsent, List.append_assoc], ?_⟩
  have hids : answeredIds (messages ++ [reply.toMessage callId]) = [callId] := by
    rw [answeredIds_append, Message.answeredIds_eq_nil hquiet]
    simp [answeredIds]
  rw [hids, tell, hlevels]
  exact List.perm_append_comm

/-- A new level pays for a request. -/
theorem pays_enterDebugger (h : x.Stands y) (callId : Int64) (report : Report) :
    Pays callId x (y.enterDebugger callId report) := by
  obtain ⟨hlevels, messages, hsent, hquiet⟩ := h
  let level := y.session.debugger.nextLevel callId report
  refine ⟨messages ++ [Message.debug level, Message.debugActivate level.level], ?_, ?_⟩
  · simp only [enterDebugger, tell, hsent, List.append_assoc, List.cons_append, List.nil_append,
      level]
  · have hids : answeredIds
        (messages ++ [Message.debug level, Message.debugActivate level.level]) = [] := by
      rw [answeredIds_append, Message.answeredIds_eq_nil hquiet]
      rfl
    have hopen : (y.enterDebugger callId report).session.debugger.callIds =
        x.session.debugger.callIds ++ [callId] := by
      rw [← hlevels]
      exact Debugger.callIds_push _ _ _
    rw [hids, hopen, List.nil_append]

end Exchange

namespace Handler

open Exchange (standing)

variable {site : Site σ}

theorem standing_onLink {α : Type} (op : LinkOp σ α) : Op.Obeys standing (onLink op) :=
  obeys_onLink fun _ _ _ => ⟨rfl, sends_nothing rfl⟩

theorem standing_evaluate (form : String) : Op.Obeys standing (evaluate site form) :=
  (standing_onLink _).bind fun _ => obeys_follow fun _ _ items _ _ _ _ =>
    ⟨rfl, textMessages items, rfl, fun m hm => (quiet_textMessages items m hm).2⟩

theorem standing_asks (x : Exchange σ) : AsksUphold (standing.contract RequestError x) site where
  evaluated form := Op.obeys_iff_upholds.1 (standing_evaluate form) x
  executed _ := Op.obeys_iff_upholds.1 (standing_onLink _) x
  acknowledged _ _ hy _ := Exchange.Stands.trans hy ⟨rfl, sends_nothing rfl⟩
  told _ printed hy := Exchange.Stands.trans hy ⟨rfl,
    [Message.replResult printed, Message.replResult "\n"], rfl, by simp⟩
  refused _ _ _ hy := hy

end Handler

section

variable {site : Site σ} {r : Request} {x y : Exchange σ} {level : Nat} {recovery : Recovery}

theorem workOn_recovery (h : r.recovery? x.session.debugger = some (level, recovery)) :
    ∃ closed, x.session.debugger.get? level = some closed ∧
      workOn site r x = Handler.recover site level recovery x := by
  obtain ⟨hpicked, hopen⟩ := Option.filter_eq_some_iff.1 h
  obtain ⟨operation, hop, hpicked⟩ := Option.bind_eq_some_iff.1 hpicked
  obtain ⟨closed, hclosed⟩ := Option.isSome_iff_exists.1 hopen
  refine ⟨closed, hclosed, ?_⟩
  obtain ⟨hcloses, hstays⟩ := EditorOperation.closesLevels_of_recovery? hpicked
  have hinvokes := Handler.invokes_handle hcloses hstays site r.args x
  rw [hpicked] at hinvokes
  rw [workOn_eq hop]
  exact hinvokes

/-- A request that invokes no recovery on an open level leaves the levels as they are, unless it is
to quit. -/
theorem workOn_stands (hstays : EditorOperation.table.get? r.operation ≠ some .quitLisp)
    (h : r.recovery? x.session.debugger = none) {got : Except (Stop RequestError) Reply}
    (hrun : workOn site r x = (got, y)) : x.Stands y := by
  have hx : x.Stands x := Exchange.standing.refl x
  rw [workOn] at hrun
  cases hop : EditorOperation.table.get? r.operation with
  | none =>
    rw [hop] at hrun
    cases hrun
    exact hx
  | some operation =>
    rw [hop] at hrun
    replace hrun : operation.handle site r.args x = (got, y) := hrun
    cases hcloses : operation.closesLevels with
    | false =>
      have hasks : Handler.AsksUphold (Exchange.standing.contract RequestError x) site :=
        Handler.standing_asks x
      exact Op.holds_contract.1 (hasks.handle hcloses r.args x got y hrun hx)
    | true =>
      have hinvokes := (Handler.invokes_handle hcloses (fun hquit => hstays (hquit ▸ hop))
        site r.args x).filter
      rw [Request.recovery?, hop, Option.bind_some] at h
      rw [h, hrun] at hinvokes
      rcases hinvokes with ⟨reply, heq⟩ | ⟨error, -, heq⟩
      · cases heq
        exact hx
      · cases heq
        exact hx

/-- To carry out a recovery leaves no level or, to resume, those there are. -/
theorem Session.perform_debugger {s t : Session σ} {got : Except (Stop Report) Unit}
    (h : Session.perform site recovery s = (got, t)) :
    t.debugger = match recovery with
      | .resume => s.debugger
      | .quit | .restart => .empty := by
  -- To quit and to restart empty the debugger first, so they may as well start from an empty one,
  -- in which no level is opened.
  have hempty (hfrom : Session.perform site recovery { s with debugger := .empty } = (got, t)) :
      t.debugger = .empty := by
    have hclosing := (Session.closing_perform site recovery { s with debugger := .empty }).1
    rw [hfrom] at hclosing
    have hnil : t.debugger.levels = [] := List.prefix_nil.1 hclosing
    rw [Debugger.empty, ← hnil]
  cases recovery with
  | resume =>
    cases h
    rfl
  | quit => exact hempty h
  | restart => exact hempty h

/-- A recovery that comes to its end answers the request of its level and closes nothing else than
stated. -/
theorem Handler.recover_of_open {closed : DebuggerLevel} {got : Except (Stop RequestError) Reply}
    (hclosed : x.session.debugger.get? level = some closed)
    (hrun : Handler.recover site level recovery x = (got, y)) :
    got = .error .stalled ∨ (∃ message, got = .ok (.abort message)) ∧
      y.sent = x.sent ++ Message.closed closed ∧
      y.session.debugger = x.session.debugger.left level recovery := by
  cases hperform : Session.perform site recovery
      { x.session with debugger := x.session.debugger.closeFrom level } with
  | mk done s =>
    obtain ⟨hstalled, hdone⟩ := Handler.recover_some hclosed hperform
    by_cases hend : done = .error .stalled
    · rw [hstalled hend] at hrun
      cases hrun
      exact .inl rfl
    · rw [hdone hend] at hrun
      cases hrun
      refine .inr ⟨⟨_, rfl⟩, rfl, ?_⟩
      rw [Session.perform_debugger hperform]
      cases recovery <;> rfl

/-- A request that invokes a recovery answers the request of the level, and it is replied to. -/
theorem handleRequest_recovers (h : r.recovery? x.session.debugger = some (level, recovery))
    (hrun : handleRequest site r x = (.ok (), y)) :
    ∃ closed message, x.session.debugger.get? level = some closed ∧
      y.sent = x.sent ++ Message.closed closed ++ [(Reply.abort message).toMessage r.callId] ∧
      y.session.debugger = x.session.debugger.left level recovery := by
  obtain ⟨closed, hclosed, hwork⟩ :
    ∃ closed, _ ∧ workOn site r x = Handler.recover site level recovery x := workOn_recovery h
  cases hrecover : Handler.recover site level recovery x with
  | mk got z =>
    rw [handleRequest, hwork, hrecover] at hrun
    rcases Handler.recover_of_open hclosed hrecover with rfl | ⟨⟨message, rfl⟩, hsent, hleft⟩
    · cases hrun
    · cases hrun
      exact ⟨closed, message, hclosed, by rw [Exchange.tell, hsent], hleft⟩

theorem handleRequest_pays (hstays : EditorOperation.table.get? r.operation ≠ some .quitLisp)
    (h : r.recovery? x.session.debugger = none) (hrun : handleRequest site r x = (.ok (), y)) :
    Exchange.Pays r.callId x y := by
  have hend := handleRequest_concludes site r x
  rw [hrun] at hend
  cases hend with
  | replied reply z hwork => exact Exchange.pays_tell (workOn_stands hstays h hwork) _ _
  | entered report z hwork =>
    exact Exchange.pays_enterDebugger (workOn_stands hstays h hwork) _ _
  | refused error z hwork _ => exact Exchange.pays_tell (workOn_stands hstays h hwork) _ _

/-- The requests answered over a request, left open and discarded by it are those open before and
itself. -/
theorem handleRequest_balance (hstays : EditorOperation.table.get? r.operation ≠ some .quitLisp)
    (hrun : handleRequest site r x = (.ok (), y)) :
    ∃ messages, y.sent = x.sent ++ messages ∧
      (answeredIds messages ++ y.session.debugger.callIds ++
        r.discardedIds x.session.debugger).Perm (x.session.debugger.callIds ++ [r.callId]) := by
  cases h : r.recovery? x.session.debugger with
  | none =>
    have hnone : r.discardedIds x.session.debugger = [] := by rw [Request.discardedIds, h]
    rw [hnone]
    simp only [List.append_nil]
    exact handleRequest_pays hstays h hrun
  | some picked =>
    obtain ⟨level, recovery⟩ := picked
    obtain ⟨closed, message, hclosed, hsent, hleft⟩ := handleRequest_recovers h hrun
    refine ⟨Message.closed closed ++ [(Reply.abort message).toMessage r.callId],
      by rw [hsent, List.append_assoc], ?_⟩
    have hids : answeredIds (Message.closed closed ++ [(Reply.abort message).toMessage r.callId]) =
        [closed.callId, r.callId] := by
      rw [answeredIds_append, Message.answeredIds_closed]
      simp [answeredIds]
    have hlevels := (Debugger.levels_perm hclosed recovery).map DebuggerLevel.callId
    rw [hids, hleft, Request.discardedIds, h]
    refine List.perm_iff_count.2 fun c => ?_
    have hcount := hlevels.count_eq c
    simp only [Debugger.callIds, List.map_append, List.map_cons, List.count_append,
      List.count_cons, List.count_nil] at hcount ⊢
    omega

end

def discardedIds (site : Site σ) : List Request → Exchange σ → List Int64
  | [], _ => []
  | r :: rest, x =>
    r.discardedIds x.session.debugger ++ discardedIds site rest (handleRequest site r x).2

section

variable {site : Site σ} {requests : List Request} {x y : Exchange σ}

/-- Over a run, every request is answered, left open or discarded, once. -/
theorem handleRequests_balance
    (hstays : ∀ r ∈ requests, EditorOperation.table.get? r.operation ≠ some .quitLisp)
    (hrun : handleRequests site requests x = (.ok (), y)) :
    ∃ messages, y.sent = x.sent ++ messages ∧
      (answeredIds messages ++ y.session.debugger.callIds ++ discardedIds site requests x).Perm
        (x.session.debugger.callIds ++ requests.map Request.callId) := by
  induction requests generalizing x with
  | nil =>
    cases hrun
    exact ⟨[], (List.append_nil _).symm, by simp [discardedIds, answeredIds]⟩
  | cons r rest ih =>
    obtain ⟨_, z, hfirst, hrest⟩ := Op.bind_eq_ok.1 hrun
    obtain ⟨messages, hsent, hids⟩ :=
      handleRequest_balance (hstays r (List.mem_cons_self ..)) hfirst
    obtain ⟨more, hmore, hrestIds⟩ :=
      ih (fun other hother => hstays other (List.mem_cons_of_mem r hother)) hrest
    refine ⟨messages ++ more, by rw [hmore, hsent, List.append_assoc], ?_⟩
    rw [discardedIds, hfirst, answeredIds_append]
    -- The two sides are compared by counting each id.
    refine List.perm_iff_count.2 fun c => ?_
    have hfirstCount := hids.count_eq c
    have hrestCount := hrestIds.count_eq c
    simp only [List.count_append, List.map_cons, List.count_cons, List.count_nil]
      at hfirstCount hrestCount ⊢
    omega

end

/-- A recovery tells the editor that the level it is invoked on is closed, and answers the request
of that level. Levels that it takes away besides, those inside of it and, to quit or to restart, all
others, are discarded without a message. So after a run in which the server is not quit, every
request received is answered, or its level is open, or its level was discarded by a recovery that
was invoked on another one. -/
theorem recovery_answers_chosen_level (site : Site σ) (x : Exchange σ)
    (payloads : List (List UInt8)) (y : Exchange σ) (hopen : x.session.debugger = .empty)
    (hstays : ∀ r ∈ payloads.filterMap requestIn?,
      EditorOperation.table.get? r.operation ≠ some .quitLisp)
    (hrun : handlePayloads site payloads x = (.ok (), y)) :
    (∃ messages, y.sent = x.sent ++ messages ∧
      (answeredIds messages ++ y.session.debugger.callIds ++
        discardedIds site (payloads.filterMap requestIn?) x).Perm (requestIds payloads)) ∧
    ∀ payload r level recovery z, requestIn? payload = some r →
      r.recovery? y.session.debugger = some (level, recovery) →
      handlePayload site payload y = (.ok (), z) →
      ∃ closed message, y.session.debugger.get? level = some closed ∧
        z.sent = y.sent ++ Message.closed closed ++ [(Reply.abort message).toMessage r.callId] ∧
        z.session.debugger = y.session.debugger.left level recovery ∧
        y.session.debugger.levels.Perm
          (closed :: (y.session.debugger.discarded level recovery ++
            z.session.debugger.levels)) := by
  constructor
  · rw [handlePayloads_eq] at hrun
    obtain ⟨messages, hsent, hids⟩ := handleRequests_balance hstays hrun
    rw [hopen] at hids
    exact ⟨messages, hsent, hids⟩
  · intro payload r level recovery z hr hrecovery hpayload
    rw [handlePayload_of_request hr] at hpayload
    obtain ⟨closed, message, hclosed, hsent, hleft⟩ := handleRequest_recovers hrecovery hpayload
    refine ⟨closed, message, hclosed, hsent, hleft, ?_⟩
    rw [hleft]
    exact Debugger.levels_perm hclosed recovery

def nestedPayloads : List (List UInt8) :=
  ["(:emacs-rex (swank:interactive-eval \"1\") nil t 1)",
    "(:emacs-rex (swank:interactive-eval \"2\") nil t 2)"].map Utf8.encode

def abortPayload : List UInt8 := Utf8.encode "(:emacs-rex (swank:sldb-abort) nil t 3)"

def evalRequest (form : String) (callId : Int64) : Request :=
  ⟨"swank:interactive-eval", [.string form], none, .truth, callId⟩

def abortRequest : Request := ⟨"swank:sldb-abort", [], none, .truth, 3⟩

def nestedStart : Exchange Unit := ⟨.start Config.Layer.empty.resolve, []⟩

def nestedLevels : Exchange Unit :=
  (nestedStart.enterDebugger 1 Session.noEvaluator).enterDebugger 2 Session.noEvaluator

def nestedEnd : Exchange Unit :=
  (⟨nestedStart.session, nestedLevels.sent ++
    Message.closed ⟨2, 2, Session.noEvaluator.message, [], true⟩⟩ : Exchange Unit).tell
      ((Reply.abort "NIL").toMessage 3)

theorem requests_nested :
    nestedPayloads.filterMap requestIn? = [evalRequest "1" 1, evalRequest "2" 2] := by
  decide +kernel

theorem requestIn?_abortPayload : requestIn? abortPayload = some abortRequest := by
  decide +kernel

theorem handleRequest_eval (form : String) (callId : Int64) {x : Exchange Unit}
    (hx : x.session.link = none) :
    handleRequest (.barren (.answering [] [])) (evalRequest form callId) x =
      (.ok (), x.enterDebugger callId Session.noEvaluator) := by
  have hhandle : Handler.interactiveEval (.barren (.answering [] [])) [.string form] x =
      (.error (.failed (.report Session.noEvaluator)), x) := by
    rw [Handler.interactiveEval, Handler.textArg_some rfl, pure_bind]
    exact Op.bind_error (Op.bind_error (Handler.onLink_none hx))
  exact handleRequest_of_report (r := evalRequest form callId)
    EditorOperation.get?_interactiveEval hhandle

theorem handlePayloads_nested :
    handlePayloads (.barren (.answering [] [])) nestedPayloads nestedStart =
      (.ok (), nestedLevels) := by
  rw [handlePayloads_eq, requests_nested, handleRequests,
    Op.bind_ok (handleRequest_eval "1" 1 rfl), handleRequests,
    Op.bind_ok (handleRequest_eval "2" 2 rfl)]
  rfl

theorem handlePayload_abort :
    handlePayload (.barren (.answering [] [])) abortPayload nestedLevels = (.ok (), nestedEnd) := by
  have hhandle : Handler.recoverInnermost (.barren (.answering [] [])) .quit nestedLevels =
      (.ok (.abort "NIL"), ⟨nestedStart.session, nestedLevels.sent ++
        Message.closed ⟨2, 2, Session.noEvaluator.message, [], true⟩⟩) := rfl
  rw [handlePayload_of_request requestIn?_abortPayload]
  exact handleRequest_of_reply (r := abortRequest) EditorOperation.get?_sldbAbort hhandle

theorem not_quitLisp_nested : ∀ r ∈ nestedPayloads.filterMap requestIn?,
    EditorOperation.table.get? r.operation ≠ some .quitLisp := by
  have heval (form : String) (callId : Int64) :
      EditorOperation.table.get? (evalRequest form callId).operation = some .interactiveEval :=
    EditorOperation.get?_interactiveEval
  rw [requests_nested]
  simp [heval]

theorem recovery_answers_chosen_level_nested :
    nestedStart.session.debugger = .empty ∧
    handlePayloads (.barren (.answering [] [])) nestedPayloads nestedStart =
      (.ok (), nestedLevels) ∧
    (∃ messages, nestedLevels.sent = [] ++ messages ∧
      (answeredIds messages ++ nestedLevels.session.debugger.callIds ++
        discardedIds (.barren (.answering [] [])) (nestedPayloads.filterMap requestIn?)
          nestedStart).Perm (requestIds nestedPayloads)) ∧
    ∃ closed message, nestedLevels.session.debugger.get? 2 = some closed ∧
      nestedEnd.sent = nestedLevels.sent ++ Message.closed closed ++
        [(Reply.abort message).toMessage 3] ∧
      nestedEnd.session.debugger = nestedLevels.session.debugger.left 2 .quit ∧
      nestedLevels.session.debugger.levels.Perm
        (closed :: (nestedLevels.session.debugger.discarded 2 .quit ++
          nestedEnd.session.debugger.levels)) := by
  have hrecovery : abortRequest.recovery? nestedLevels.session.debugger = some (2, .quit) := by
    rw [Request.recovery?, abortRequest, EditorOperation.get?_sldbAbort]
    rfl
  obtain ⟨hids, hrecovers⟩ := recovery_answers_chosen_level (.barren (.answering [] []))
    nestedStart nestedPayloads nestedLevels rfl not_quitLisp_nested handlePayloads_nested
  exact ⟨rfl, handlePayloads_nested, hids, hrecovers abortPayload abortRequest 2 .quit nestedEnd
    requestIn?_abortPayload hrecovery handlePayload_abort⟩

/-- To quit the inner level takes the outer one away, and its request is never answered. -/
theorem outer_level_unanswered :
    (∀ r ∈ (nestedPayloads ++ [abortPayload]).filterMap requestIn?,
      EditorOperation.table.get? r.operation ≠ some .quitLisp) ∧
    ∃ y, handlePayloads (.barren (.answering [] [])) (nestedPayloads ++ [abortPayload])
        nestedStart = (.ok (), y) ∧
      1 ∈ requestIds (nestedPayloads ++ [abortPayload]) ∧ 1 ∉ answeredIds y.sent ∧
      Message.debugReturn 1 ∉ y.sent ∧ y.session.debugger.levels = [] := by
  have hrequests : (nestedPayloads ++ [abortPayload]).filterMap requestIn? =
      [evalRequest "1" 1, evalRequest "2" 2, abortRequest] := by
    rw [List.filterMap_append, requests_nested, List.filterMap_cons_some requestIn?_abortPayload]
    rfl
  have hrun : handlePayloads (.barren (.answering [] [])) (nestedPayloads ++ [abortPayload])
      nestedStart = (.ok (), nestedEnd) := by
    rw [handlePayloads_append, Op.bind_ok handlePayloads_nested, handlePayloads,
      Op.bind_ok handlePayload_abort]
    rfl
  refine ⟨fun r hr => ?_, nestedEnd, hrun, ?_, by decide +kernel, by decide +kernel, rfl⟩
  · rw [List.filterMap_append, List.mem_append,
      List.filterMap_cons_some requestIn?_abortPayload] at hr
    rcases hr with hr | hr
    · exact not_quitLisp_nested r hr
    · cases List.mem_singleton.1 hr
      rw [abortRequest, EditorOperation.get?_sldbAbort]
      simp
  · rw [requestIds, hrequests]
    exact List.mem_cons_self ..

end SlimeServer
