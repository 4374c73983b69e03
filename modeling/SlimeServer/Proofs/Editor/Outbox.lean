import SlimeServer.Proofs.Editor.Tasks
/-!
# What of an outbox is written

The writing task gives up for good at the first message of the outbox that does not fit into a
frame. What follows it is lost, even where it fits. So every message that fits is written exactly if
none comes after one that does not.
-/
namespace SlimeServer

instance (message : Sexp) : Decidable (Fits message) := inferInstanceAs (Decidable (_ ≤ _))

def untilOversized (messages : List Sexp) : List Sexp := messages.takeWhile (decide <| Fits ·)

def cutOff (messages : List Sexp) : List Sexp :=
  (messages.dropWhile (decide <| Fits ·)).filter (decide <| Fits ·)

section

variable {messages : List Sexp} {message : Sexp}

theorem untilOversized_cons_of_fits (h : Fits message) :
    untilOversized (message :: messages) = message :: untilOversized messages :=
  List.takeWhile_cons_of_pos (decide_eq_true h)

theorem untilOversized_cons_of_not_fits (h : ¬ Fits message) :
    untilOversized (message :: messages) = [] :=
  List.takeWhile_cons_of_neg (by rwa [decide_eq_true_iff])

theorem cutOff_cons_of_fits (h : Fits message) :
    cutOff (message :: messages) = cutOff messages := by
  rw [cutOff, List.dropWhile_cons_of_pos (by exact decide_eq_true h), cutOff]

theorem cutOff_cons_of_not_fits (h : ¬ Fits message) :
    cutOff (message :: messages) = messages.filter (decide <| Fits ·) := by
  have hneg : ¬ decide (Fits message) = true := by rwa [decide_eq_true_iff]
  rw [cutOff, List.dropWhile_cons_of_neg (by exact hneg), List.filter_cons_of_neg (by exact hneg)]

theorem framesOf_eq (messages : List Sexp) :
    framesOf messages = (untilOversized messages).map frameOf := by
  induction messages with
  | nil => rfl
  | cons message rest ih =>
    by_cases hfits : Fits message
    · rw [untilOversized_cons_of_fits hfits, framesOf, Frame.encode_eq_ok hfits, List.map_cons]
      exact congrArg (frameOf message :: ·) ih
    · have hlarge : Frame.encode (Utf8.encode message.print) = .error _ :=
        if_pos (Nat.lt_of_not_le hfits)
      rw [untilOversized_cons_of_not_fits hfits, framesOf, hlarge, List.map_nil]

theorem filter_fits (messages : List Sexp) :
    messages.filter (decide <| Fits ·) = untilOversized messages ++ cutOff messages := by
  have hall : (untilOversized messages).filter (decide <| Fits ·) = untilOversized messages :=
    List.filter_eq_self.2 fun message h => List.all_eq_true.1 List.all_takeWhile message h
  rw [cutOff, ← hall, untilOversized, ← List.filter_append, List.takeWhile_append_dropWhile]

theorem cutOff_eq_nil_iff :
    cutOff messages = [] ↔ messages.Pairwise fun earlier later => Fits later → Fits earlier := by
  induction messages with
  | nil => exact ⟨fun _ => .nil, fun _ => rfl⟩
  | cons message rest ih =>
    rw [List.pairwise_cons]
    by_cases hfits : Fits message
    · rw [cutOff_cons_of_fits hfits, ih]
      exact ⟨fun h => ⟨fun _ _ _ => hfits, h⟩, And.right⟩
    · rw [cutOff_cons_of_not_fits hfits, List.filter_eq_nil_iff]
      constructor
      · intro h
        have hnone (later : Sexp) (hmem : later ∈ rest) : ¬ Fits later := fun hlater =>
          h later hmem (decide_eq_true hlater)
        exact ⟨fun later hmem hlater => absurd hlater (hnone later hmem),
          List.pairwise_of_forall_mem_list fun _ _ later hmem hlater =>
            absurd hlater (hnone later hmem)⟩
      · rintro ⟨h, -⟩ later hmem hlater
        exact hfits (h later hmem (of_decide_eq_true hlater))

end

theorem frameOf_ne_nil (message : Sexp) : frameOf message ≠ [] := by
  rw [Ne, ← List.length_eq_zero_iff, frameOf, Frame.length_framed, Frame.headerLength]
  omega

theorem flatMap_frameOf_eq_nil_iff {messages : List Sexp} :
    messages.flatMap frameOf = [] ↔ messages = [] := by
  rw [List.flatMap_eq_nil_iff]
  exact ⟨fun h => List.eq_nil_iff_forall_not_mem.2 fun m hm => frameOf_ne_nil m (h m hm),
    fun h => by rw [h]; exact nofun⟩

namespace Visit

def posting (messages : List Sexp) : Visit := { start [] with pending := messages }

theorem wellFounded_step (writable : Bool) :
    WellFounded fun v' v : Visit => Step writable v v' :=
  Subrelation.wf (fun h => h.work_lt) (InvImage.wf work wellFounded_lt)

variable {v v' : Visit}

theorem run_bytes_eq (h : Relation.ReflTransGen (Step true) v v') (later : List Sexp) :
    v'.bytes later = v.bytes later := by
  induction h with
  | refl => rfl
  | tail _ hstep ih => rw [hstep.bytes_eq, ih]

theorem bytes_posting (messages : List Sexp) :
    (posting messages).bytes [] = (framesOf messages).flatten :=
  congrArg (fun queued => (framesOf queued).flatten) (List.append_nil messages)

/-- However messages are queued while the socket takes what is written: what has been written is the
beginning of the frames of the messages up to the first that does not fit, and it is all of them
once nothing more can be done, to which it comes. Of the messages that fit, those are lost that come
after one that does not, so none is lost exactly if there are none. -/
theorem outbox_written (messages : List Sexp) :
    framesOf messages = (untilOversized messages).map frameOf ∧
    Acc (fun v' v => Step true v v') (posting messages) ∧
    (∀ v, Relation.ReflTransGen (Step true) (posting messages) v →
      v.written <+: (untilOversized messages).flatMap frameOf ∧
      ((∀ v', ¬ Step true v v') → v.written = (untilOversized messages).flatMap frameOf ∧
        v.written ++ (cutOff messages).flatMap frameOf =
          (messages.filter (decide <| Fits ·)).flatMap frameOf ∧
        (v.written = (messages.filter (decide <| Fits ·)).flatMap frameOf ↔
          messages.Pairwise fun earlier later => Fits later → Fits earlier))) := by
  refine ⟨framesOf_eq messages, (wellFounded_step true).apply _, fun v hrun => ?_⟩
  have hbytes : v.bytes [] = (untilOversized messages).flatMap frameOf := by
    rw [run_bytes_eq hrun, bytes_posting, framesOf_eq, List.flatMap_def]
  refine ⟨by rw [← hbytes]; exact List.prefix_append _ _, fun hstuck => ?_⟩
  have hdone : v.Done := by
    by_contra hwork
    obtain ⟨v', hstep⟩ := v.exists_step_of_not_done true hwork
    exact hstuck v' hstep
  have hwritten : v.written = (untilOversized messages).flatMap frameOf := by
    rw [← hdone.bytes_eq, hbytes]
  have hlost : v.written ++ (cutOff messages).flatMap frameOf =
      (messages.filter (decide <| Fits ·)).flatMap frameOf := by
    rw [hwritten, filter_fits, List.flatMap_append]
  refine ⟨hwritten, hlost, ?_⟩
  rw [← hlost, List.self_eq_append_right, flatMap_frameOf_eq_nil_iff, cutOff_eq_nil_iff]

def longSymbol : Sexp := .symbol (String.ofList (List.replicate (Frame.maxPayload + 1) 'x'))

theorem not_fits_longSymbol : ¬ Fits longSymbol := by
  have hlength : (longSymbol.printChars.flatMap Utf8.encodeChar).length = Frame.maxPayload + 1 := by
    have hx : (Utf8.encodeChar 'x').length = 1 := by decide
    rw [longSymbol, Sexp.printChars, String.toList_ofList, List.length_flatMap, List.map_replicate,
      List.sum_replicate_nat, hx, Nat.mul_one]
  rw [fits_iff, hlength]
  exact Nat.not_succ_le_self _

/-- A short answer behind a message that is too large is never written. -/
theorem answer_lost_behind_longSymbol : Fits .truth ∧
    ∀ v, Relation.ReflTransGen (Step true) (posting [longSymbol, .truth]) v → v.written = [] := by
  refine ⟨fits_iff.2 (by decide), fun v hrun => ?_⟩
  have hframes : framesOf [longSymbol, .truth] = [] := by
    rw [framesOf_eq, untilOversized_cons_of_not_fits not_fits_longSymbol, List.map_nil]
  have hbytes := run_bytes_eq hrun []
  rw [bytes_posting, hframes, List.flatten_nil, bytes, List.append_eq_nil_iff] at hbytes
  exact hbytes.1

end Visit

end SlimeServer
