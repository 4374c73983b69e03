import SlimeServer.Proofs.Evaluator.CallStack
import SlimeServer.Proofs.Evaluator.Command
/-!
# What the link's operations write

Submitting a form writes one line, the form, and so does running a command. Whatever else is
written after it asks for the call stack of an error. Nothing is written before it.
-/
namespace SlimeServer

variable {σ : Type}

inductive StackLine : Channel × String → Prop
  | ask (depth : Nat) : StackLine (.socket, callStackCommand depth)
  | leave : StackLine (.socket, resetLevelCommand)

inductive Submission (line : Channel × String) : List (Channel × String) → Prop
  | refused : Submission line []
  | written {others : List (Channel × String)} : (∀ other ∈ others, StackLine other) →
      Submission line (line :: others)

namespace Link

open Op (Obeys)

/-- Lines of some kind are written to the evaluator, and nothing else. -/
def writing (P : Channel × String → Prop) : Law (Link σ) where
  holds l _ l' := ∃ lines, l'.peer.sent = l.peer.sent ++ lines ∧ ∀ line ∈ lines, P line
  refl l := ⟨[], (List.append_nil _).symm, List.forall_mem_nil _⟩
  trans := by
    rintro l l₁ l₂ _ ⟨lines, hsent, hlines⟩ ⟨more, hmore, hmoreLines⟩
    refine ⟨lines ++ more, ?_, List.forall_mem_append.2 ⟨hlines, hmoreLines⟩⟩
    rw [hmore, hsent, List.append_assoc]

def quiet : Law (Link σ) :=
  .ofRelation (fun l l' => l'.peer.sent = l.peer.sent) (fun _ => rfl) fun h h' => h'.trans h

section

variable {b : Behaviour σ}

theorem moves_quiet : MovesWriting (quiet : Law (Link σ)) fun _ => False where
  quiet _ _ hsent := hsent
  wrote _ _ _ hline := hline.elim

theorem states_quiet (l : Link σ) (state : LinkState) :
    quiet.holds l false { l with state := state } := rfl

theorem awaits_writing : AwaitsWriting (writing StackLine : Law (Link σ)) StackLine where
  quiet _ _ hsent := ⟨[], by rw [hsent, List.append_nil], List.forall_mem_nil _⟩
  wrote _ _ _ hline hsent := ⟨_, hsent, List.forall_mem_singleton.2 hline⟩
  waits _ _ _ hsent := ⟨[], by rw [hsent, List.append_nil], List.forall_mem_nil _⟩
  asks depth := by
    rw [trim_callStackCommand]
    exact .ask depth
  leaves := by
    have htrim : Text.trim resetLevelCommand = resetLevelCommand := by decide +kernel
    rw [htrim]
    exact .leave

theorem states_writing (P : Channel × String → Prop) (l : Link σ) (state : LinkState) :
    (writing P).holds l false { l with state := state } := (writing P).refl l

theorem writing_next (e : Evaluation) (l : Link σ) :
    (writing StackLine).holds l false (e.next b l).2.2 := by
  fun_induction Evaluation.next b e l with
  | case1 e l item rest hq => exact (writing StackLine).refl l
  | case2 e l hq hf => exact (writing StackLine).refl l
  | case3 e l hq hf e' l' h ih =>
    have hstep := awaits_writing.advance (b := b) (states_writing _) e l
    rw [h] at hstep
    exact (writing StackLine).trans hstep ih
  | case4 e l hq hf report l' h | case5 e l hq hf l' h =>
    have hstep := awaits_writing.advance (b := b) (states_writing _) e l
    rw [h] at hstep
    exact hstep

theorem writing_rest (e : Evaluation) (l : Link σ) :
    (writing StackLine).holds l false (e.rest b l).2.2 := by
  fun_induction Evaluation.rest b e l with
  | case1 e l item e' l' h items answer l'' hrest ih =>
    have hstep := writing_next (b := b) e l
    rw [h] at hstep
    rw [hrest] at ih
    exact (writing StackLine).trans hstep ih
  | case2 e l report e' l' h | case3 e l e' l' h | case4 e l e' l' h =>
    have hstep := writing_next (b := b) e l
    rw [h] at hstep
    exact hstep

end

def Writes {α : Type} (line : Channel × String) (op : LinkOp σ α) : Prop :=
  ∀ l, (op l).2.peer.sent = l.peer.sent ++ if (op l).1.isOk then [line] else []

def Submits {α : Type} (line : Channel × String) (op : LinkOp σ α) : Prop :=
  ∀ l, ∃ lines, (op l).2.peer.sent = l.peer.sent ++ lines ∧ Submission line lines

section

variable {α β : Type} {b : Behaviour σ} {line : Channel × String} {op : LinkOp σ α}
  {next : α → LinkOp σ β}

theorem Writes.after (h : ∀ a, Writes line (next a)) (hop : Obeys quiet op) :
    Writes line (op >>= next) := by
  intro l
  have hsent : (op l).2.peer.sent = l.peer.sent := hop l
  rw [Op.bind_apply]
  generalize op l = answer at hsent
  obtain ⟨got, l'⟩ := answer
  cases got with
  | ok a => exact (h a l').trans (by rw [hsent])
  | error stop => exact hsent.trans (List.append_nil _).symm

/-- An operation that writes nothing and returns may come behind. -/
theorem Writes.before (h : Writes line op) (hn : ∀ a, Obeys quiet (next a))
    (hok : ∀ a l, (next a l).1.isOk = true) : Writes line (op >>= next) := by
  intro l
  have hsent := h l
  rw [Op.bind_apply]
  generalize op l = answer at hsent
  obtain ⟨got, l'⟩ := answer
  cases got with
  | ok a =>
    have hnext : (next a l').2.peer.sent = l'.peer.sent := hn a l'
    simp only [hok a l']
    rw [hnext, hsent]
    rfl
  | error stop => exact hsent

theorem Writes.noting (h : Writes line op) : Writes line (noting op) := by
  intro l
  obtain ⟨hgot, hpeer⟩ := noting_fst op l
  rw [hgot, hpeer, h l]

theorem Submits.noting (h : Submits line op) : Submits line (noting op) := by
  intro l
  rw [(noting_fst op l).2]
  exact h l

theorem Submits.after (h : ∀ a, Submits line (next a)) (hop : Obeys quiet op) :
    Submits line (op >>= next) := by
  intro l
  have hsent : (op l).2.peer.sent = l.peer.sent := hop l
  rw [Op.bind_apply]
  generalize op l = answer at hsent
  obtain ⟨got, l'⟩ := answer
  cases got with
  | ok a =>
    rw [← hsent]
    exact h a l'
  | error stop => exact ⟨[], by rw [List.append_nil, hsent], .refused⟩

theorem Writes.submits (h : Writes line op) (hn : ∀ a, Obeys (writing StackLine) (next a)) :
    Submits line (op >>= next) := by
  intro l
  have hsent := h l
  rw [Op.bind_apply]
  generalize op l = answer at hsent
  obtain ⟨got, l'⟩ := answer
  cases got with
  | ok a =>
    obtain ⟨others, hothers, hstack⟩ := hn a l'
    refine ⟨line :: others, ?_, .written hstack⟩
    rw [hothers, hsent, List.append_assoc]
    rfl
  | error stop => exact ⟨[], hsent, .refused⟩

theorem writes_writeStdin (text : String) :
    Writes (.stdin, Text.trim text) (writeStdin b text) := by
  intro l
  cases hwrite : l.peer.write b .stdin (Text.trim text) with
  | ok q =>
    rw [writeStdin_ok hwrite]
    exact Peer.sent_of_write hwrite
  | error reason =>
    obtain ⟨report, hfails⟩ := writeStdin_error hwrite
    rw [hfails]
    exact (l.peer.sent_act b .look).trans (List.append_nil _).symm

theorem writes_writeSocket (text : String) :
    Writes (.socket, Text.trim text) (writeSocket b text) := by
  intro l
  cases hwrite : l.peer.write b .socket (Text.trim text) with
  | ok q =>
    rw [writeSocket_ok hwrite]
    exact Peer.sent_of_write hwrite
  | error reason =>
    obtain ⟨report, hfails⟩ := writeSocket_error hwrite
    rw [hfails]
    exact (List.append_nil _).symm

theorem writes_eval (form : String) : Writes (.stdin, Text.trim form) (eval b form) := by
  refine .after (fun _ => .after (fun _ => .after (fun _ => ?_) moves_quiet.dropInbox)
    moves_quiet.dropOutput) (moves_quiet.ensureUsable states_quiet)
  refine (writes_writeStdin form).noting.before (fun _ => ?_) fun _ _ => rfl
  exact (Op.obeys_modify fun l => states_quiet l _).bind fun _ => Op.obeys_get.bind fun _ =>
    Op.obeys_pure _

theorem submits_execute (command : String) :
    Submits (.socket, Text.trim command) (execute b command) := by
  have hrun : Submits (.socket, Text.trim command)
      (writeSocket b command >>= fun _ => readOutcome false >>= respond b) :=
    (writes_writeSocket command).submits fun _ => awaits_writing.respond
  exact .after (fun _ => .after (fun _ => hrun.noting) moves_quiet.dropInbox)
    (moves_quiet.ensureUsable states_quiet)

theorem sent_execute_of_commands {l : Link σ} {command : String} {q : Peer σ}
    (h : l.Commands b command q) : ∃ others, (execute b command l).2.peer.sent =
      l.peer.sent ++ (.socket, Text.trim command) :: others := by
  have hrespond : Obeys (writing StackLine) (readOutcome false >>= respond b) :=
    awaits_writing.respond
  obtain ⟨others, hothers, -⟩ :=
    obeys_noting (states_writing StackLine) hrespond { l with peer := q }
  refine ⟨others, ?_⟩
  rw [execute_of_commands h, hothers, h.sent, List.append_assoc]
  rfl

end

end Link

end SlimeServer
