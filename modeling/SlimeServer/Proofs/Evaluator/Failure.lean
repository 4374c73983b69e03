import SlimeServer.Proofs.Evaluator.Evaluation
/-!
# Evaluations that fail

An evaluation whose outcome is a failure drops the text of the piece that completed the token. The
output before the failure is handed out in full exactly where that piece decided none of it.
-/
namespace SlimeServer

theorem Utf8.encodeChar_ascii {c : Char} (h : c.toNat < 0x80) :
    encodeChar c = [UInt8.ofNat c.toNat] := by
  rw [encodeChar, if_pos h]

theorem toNat_of_isDigit {c : Char} (h : c.isDigit = true) : 48 ≤ c.toNat ∧ c.toNat ≤ 57 := by
  simp only [Char.isDigit, Bool.and_eq_true, decide_eq_true_eq] at h
  exact h

/-- The control character that starts the session token stands nowhere else in it. -/
theorem sessionToken_bytes (port : Nat) :
    ∃ rest, Utf8.encode (sessionToken port) = 0x1d :: rest ∧ 0x1d ∉ rest := by
  have hchars : (sessionToken port).toList =
      '\x1d' :: ("euslime-token-".toList ++ Nat.toDigits 10 port) := by
    simp [sessionToken, toString, Nat.toList_repr]
  refine ⟨("euslime-token-".toList ++ Nat.toDigits 10 port).flatMap Utf8.encodeChar, ?_, ?_⟩
  · rw [Utf8.encode, hchars]
    rfl
  · rw [List.flatMap_append, List.mem_append, not_or]
    constructor
    · decide +kernel
    · intro hmem
      obtain ⟨c, hc, hbyte⟩ := List.mem_flatMap.1 hmem
      have hdigit := toNat_of_isDigit (Nat.isDigit_of_mem_toDigits (by decide) (by decide) hc)
      rw [Utf8.encodeChar_ascii (by omega), List.mem_singleton] at hbyte
      have := congrArg UInt8.toNat hbyte
      simp only [UInt8.toNat_ofNat'] at this
      simp at this
      omega

theorem onlyAfter_sessionToken {port : Nat} {output : List UInt8}
    (h : Splitter.occurrences (Utf8.encode (sessionToken port)) output = 0) :
    Splitter.OnlyAfter (Utf8.encode (sessionToken port)) output [] := by
  obtain ⟨rest, htoken, hrest⟩ := sessionToken_bytes port
  rw [htoken] at h ⊢
  exact Splitter.onlyAfter_of_head hrest h

section

variable {σ : Type} {b : Behaviour σ} {l l' : Link σ} {e : Evaluation} {form : String}

theorem Link.eq_start_of_eval (h : eval b form l = (.ok e, l')) : e = .start l' false true := by
  simp only [eval, Op.bind_eq_ok] at h
  obtain ⟨_, _, _, _, _, _, _, _, _, _, _, _, _, l₁, hmodify, l₂, l₃, hget, hpure⟩ := h
  rw [Op.get_apply] at hget
  rw [Op.pure_apply] at hpure
  cases hget
  cases hpure
  rfl

namespace Evaluation

/-- The items of an evaluation that fails are the texts of the pieces before the one that completes
the token. -/
theorem items_of_failure {moments later : List Moment} {first extra : List (List UInt8)}
    {last : List UInt8} {items : List EvalItem} {report : Report}
    (hq : e.queued = []) (hf : e.finished = false)
    (hc : l.peer.coming = moments ++ later) (hp : l.peer.Pours moments (first ++ last :: extra))
    (hn : ∀ split ∈ (e.splitter.pushAll first).1, split.found = false)
    (hl : ((e.splitter.pushAll first).2.push last).1.found = true)
    (h : e.rest b l = (items, .error (.failed report), l')) :
    items = shown l (e.splitter.pushAll first).1 := by
  obtain ⟨q₁, left₁, hc₁, hp₁, -, -, hrest⟩ := rest_pieces b hq hf hc hp hn
  obtain ⟨q₂, left₂, hawait, -⟩ := Link.awaitPiece_pours (l := { l with peer := q₁ }) hc₁ hp₁
  rw [hrest,
    rest_found b (e := { e with splitter := (e.splitter.pushAll first).2 }) hq hf hawait
    hl] at h
  split at h
  · simp at h
  · simp only [List.append_nil, Prod.mk.injEq] at h
    exact h.1.symm

/-- Output before a failure: the texts handed out are a beginning of it, and all of it exactly where
no beginning of the token that ends the pieces before the last one, the empty one among them,
reaches back into the output. -/
theorem texts_before_failure {moments later : List Moment} {first extra : List (List UInt8)}
    {last : List UInt8} {items : List EvalItem} {report : Report} {output : String} {port : Nat}
    {l₁ l₂ : Link σ} (heval : Link.eval b form l = (.ok e, l₁))
    (htoken : l₁.token = Utf8.encode (sessionToken port))
    (hfree : Splitter.occurrences l₁.token (Utf8.encode output) = 0)
    (hplain : l₁.tuning.color = true ∨ Text.escapeChar ∉ output.toList)
    (hc : l₁.peer.coming = moments ++ later)
    (hp : l₁.peer.Pours moments (first ++ last :: extra))
    (hcut : first.flatten ++ last = Utf8.encode output ++ l₁.token) (hlast : last ≠ [])
    (h : e.rest b l₁ = (items, .error (.failed report), l₂)) :
    (String.join (textsOf items)).toList <+: output.toList ∧
      (String.join (textsOf items) = output ↔
        ∀ n < l₁.token.length, l₁.token.take n <:+ first.flatten →
          (Utf8.encode output).length + n ≤ first.flatten.length) := by
  obtain rfl := Link.eq_start_of_eval heval
  have honly : Splitter.OnlyAfter l₁.token (output.toList.flatMap Utf8.encodeChar) [] := by
    rw [htoken] at hfree ⊢
    exact onlyAfter_sessionToken hfree
  have hpos := List.length_pos_iff.2 hlast
  have hlength := congrArg List.length hcut
  simp only [List.length_append, Utf8.encode] at hlength
  have hlt : first.flatten.length <
      (output.toList.flatMap Utf8.encodeChar).length + l₁.token.length := by omega
  have hwhole : (first ++ [last]).flatten =
      output.toList.flatMap Utf8.encodeChar ++ l₁.token ++ [] := by
    rw [List.flatten_append, List.flatten_singleton, hcut, List.append_nil, Utf8.encode]
  obtain ⟨after, hafter, hfound, -, hpush⟩ := Splitter.pushAll_output (s := .start l₁.token)
    rfl honly hwhole rfl hlt (by simp only [Splitter.start]; omega)
  have hitems := items_of_failure (e := start l₁ false true) rfl rfl hc hp hfound
    (by rw [start, hpush]) h
  rw [hafter, List.mem_append, not_or] at hplain
  have hjoin : (String.join (textsOf items)).toList =
      Splitter.textOf ((Splitter.start l₁.token).pushAll first).1 := by
    rw [hitems]
    exact join_textsOf_shown (hplain.imp_right And.left)
  have hb : first.flatten <+:
      output.toList.flatMap Utf8.encodeChar ++ (Splitter.start l₁.token).token ++ [] := by
    refine ⟨last, ?_⟩
    rw [hcut, List.append_nil, Utf8.encode]
    rfl
  rw [← String.toList_inj, hjoin]
  exact ⟨⟨after, hafter.symm⟩, Splitter.textOf_pushAll_eq_iff rfl honly hb hlt⟩

/-- An evaluator that prints a text in two pieces, the second together with the token, and then
sends a reply of an unknown kind. -/
def warning : Behaviour Unit := .answering
  [.output (Utf8.encode "load"), .output (Utf8.encode ("ing\n" ++ sessionToken 4005)),
    .received (Frame.framed (Utf8.encode "warn"))] []

def warned : Link Unit := (Link.eval warning "(load)" (.fresh 4005)).2

theorem eval_warned :
    Link.eval warning "(load)" (.fresh 4005) = (.ok (.start warned false true), warned) := rfl

theorem pours_warned : warned.peer.Pours warned.peer.coming
    ([Utf8.encode "load"] ++ [Utf8.encode ("ing\n" ++ sessionToken 4005)]) :=
  ⟨rfl, rfl, by decide, rfl⟩

theorem rest_warned : (start warned false true).rest warning warned =
    ([.text "load"], .error (.failed (.desynchronized "Unhandled socket response type: warn")),
      { warned with peer := { warned.peer with coming := [] }, state := .failed }) := by
  have hfirst : (start warned false true).advance warning warned =
      (.ok { start warned false true with queued := textItems (warned.clean "load") },
        { warned with peer := { warned.peer with coming := warned.peer.coming.drop 1 } }) := rfl
  have hitems : textItems (warned.clean "load") = [.text "load"] := by
    rw [clean_of_plain (.inr (by simp [Text.escapeChar]))]
    rfl
  have hsecond : (start warned false true).advance warning
      { warned with peer := { warned.peer with coming := warned.peer.coming.drop 1 } } =
      (.error (.failed (.desynchronized "Unhandled socket response type: warn")),
        { warned with peer := { warned.peer with coming := [] } }) := rfl
  rw [hitems] at hfirst
  rw [rest_of_advance rfl rfl hfirst, rest_queued rfl]
  have hrest := rest_of_failure (b := warning) (e := start warned false true) rfl rfl hsecond
  simp only [start] at hrest ⊢
  rw [hrest]
  rfl

theorem texts_before_failure_warned :
    (String.join (textsOf [.text "load"])).toList <+: "loading\n".toList ∧
      (String.join (textsOf [.text "load"]) = "loading\n" ↔
        ∀ n < warned.token.length, warned.token.take n <:+ [Utf8.encode "load"].flatten →
          (Utf8.encode "loading\n").length + n ≤ [Utf8.encode "load"].flatten.length) :=
  texts_before_failure eval_warned rfl (by decide +kernel) (.inr (by decide +kernel))
    (List.append_nil _).symm pours_warned (by decide +kernel) (by decide +kernel) rest_warned

/-- The end of a text that comes together with the token is lost before a failure. -/
theorem text_lost_with_token : ∃ e l₁ l₂ items report,
    Link.eval warning "(load)" (.fresh 4005) = (.ok e, l₁) ∧
      l₁.token = Utf8.encode (sessionToken 4005) ∧
      Splitter.occurrences l₁.token (Utf8.encode "loading\n") = 0 ∧
      Text.escapeChar ∉ "loading\n".toList ∧
      l₁.peer.Pours l₁.peer.coming
        ([Utf8.encode "load"] ++ [Utf8.encode ("ing\n" ++ sessionToken 4005)]) ∧
      [Utf8.encode "load"].flatten ++ Utf8.encode ("ing\n" ++ sessionToken 4005) =
        Utf8.encode "loading\n" ++ l₁.token ∧
      e.rest warning l₁ = (items, .error (.failed report), l₂) ∧
      String.join (textsOf items) ≠ "loading\n" :=
  ⟨_, _, _, _, _, eval_warned, rfl, by decide +kernel, by decide +kernel, pours_warned,
    by decide +kernel, rest_warned, by decide +kernel⟩

end Evaluation

end

end SlimeServer
