import Reckoner.Proofs.Console.Reading
import Reckoner.Proofs.Console.Script

/-!
# Output that is cut off

A plain console whose output has room for `n` bytes is compared with one whose output has no limit.
Message for message the limited output has what the other has, as far as it fits (`Cut`). Both give
the same lines as long as the prompts fit. At the first prompt that does not fit, the limited
dialogue stops; the other goes on, but all that it still writes is behind the limit. If every prompt
fits, the messages that do not fit are lost, and nothing else is (`run_limited`).

Which prompts there are, and where they stand, is told by the log of the same dialogue when it
follows a script with the same lines.
-/

namespace Reckoner

open Files Text

/-! ### What is seen of a dialogue -/

namespace Script

open Session

variable {s : Session} {cues : List Cue}

/-- What is seen of a dialogue that follows a script: a round for each read, and the prompt of a
read that fails. -/
def events (s : Session) (t : Tree) (cues : List Cue) : List Event :=
  (s.openMoments t (calls cues)).flatMap round ++
    if (s.afterCalls t (calls cues)).1.isFinished then []
    else [.asked (s.afterCalls t (calls cues)).1.prompt]

theorem log_run (s : Session) (t : Tree) (cues : List Cue) :
    (console.run s t (.start cues)).console.log = .shown s.banner :: events s t cues := by
  obtain ⟨hafter, hlog, -, -⟩ := follows_converse s t ⟨cues, [.shown s.banner]⟩
  rw [events, ← hafter]
  exact hlog

theorem events_of_finished (hs : s.isFinished = true) (t : Tree) (cues : List Cue) :
    events s t cues = [] := by
  rw [events, openMoments_of_finished hs, afterCalls_of_finished hs, if_pos hs]
  rfl

/-- At the end of the script the session is finished. -/
theorem events_nil (hs : s.isFinished = false) (t : Tree) : events s t [] =
    .asked s.prompt :: (s.finish t).replies.map fun r => .shown r.text := by
  have hfinished : (s.finish t).session.isFinished = true := by
    rw [finish_session]
    rfl
  rw [events, calls, openMoments_cons hs, Session.call, openMoments_of_finished hfinished,
    afterCalls, afterCalls, Session.call, if_pos hfinished, List.append_nil, List.flatMap_singleton]
  rfl

theorem events_failure (hs : s.isFinished = false) (t : Tree) (message : String)
    (cues : List Cue) : events s t (.failure message :: cues) = [.asked s.prompt] :=
  if_neg (Bool.eq_false_iff.1 hs)

theorem events_line (hs : s.isFinished = false) (t : Tree) (text : String) (cues : List Cue) :
    events s t (.line text :: cues) =
      .asked s.prompt :: ((s.submit t text).replies.map fun r => .shown r.text) ++
        events (s.submit t text).session (s.submit t text).tree cues := by
  rw [events, calls, openMoments_cons hs, List.flatMap_cons, List.append_assoc]
  rfl

end Script

namespace Plain

open Script (Event events)

/-- The bytes of an event. -/
def eventBytes : Event → List UInt8
  | .asked text | .shown text => lineBytes text

/-- The bytes of events, one behind the other. -/
def logBytes (log : List Event) : List UInt8 := log.flatMap eventBytes

/-- The cue for an input line. -/
def cue (line : Segment UInt8) : Script.Cue :=
  match answer line.items with
  | .ok text => .line text
  | .error why => .failure why.message

/-- The script with the lines of an input. -/
def cues (input : List UInt8) : List Script.Cue := (segments lineFeed input).map cue

/-- A prompt among the events does not end within the first `n` bytes. -/
def Overruns (n : Nat) (log : List Event) : Prop :=
  ∃ before prompt behind, log = before ++ .asked prompt :: behind ∧
    n < (logBytes (before ++ [.asked prompt])).length

variable {n : Nat} {log : List Event} {e : Event} {prompt : String} {s : Session} {t : Tree}
  {k k' : State}

/-! ### Prompts that do not fit -/

theorem logBytes_cons (e : Event) (log : List Event) :
    logBytes (e :: log) = eventBytes e ++ logBytes log := List.flatMap_cons

theorem logBytes_append (log log' : List Event) :
    logBytes (log ++ log') = logBytes log ++ logBytes log' := List.flatMap_append

theorem logBytes_singleton (e : Event) : logBytes [e] = eventBytes e := List.append_nil _

theorem length_lineBytes_pos (message : String) : 0 < (lineBytes message).length := by
  rw [lineBytes, List.length_append]
  exact Nat.lt_add_left _ (Nat.lt_succ_self 0)

theorem not_overruns_nil : ¬ Overruns n [] := by
  rintro ⟨before, prompt, behind, hlog, -⟩
  cases before <;> cases hlog

/-- The first event does not fit, or it leaves too little room for the others. -/
theorem overruns_cons : Overruns n (e :: log) ↔
    ((∃ prompt, e = .asked prompt) ∧ n < (eventBytes e).length) ∨
      Overruns (n - (eventBytes e).length) log := by
  have hroom (before : List Event) (prompt : String) :
      n < (logBytes (e :: (before ++ [.asked prompt]))).length ↔
        n - (eventBytes e).length < (logBytes (before ++ [.asked prompt])).length := by
    have hpos : 0 < (eventBytes (.asked prompt)).length := length_lineBytes_pos prompt
    rw [logBytes_cons, logBytes_append, logBytes_singleton, List.length_append, List.length_append]
    omega
  constructor
  · rintro ⟨before, prompt, behind, hlog, hlong⟩
    cases before with
    | nil =>
      obtain ⟨rfl, -⟩ := List.cons_eq_cons.1 hlog
      rw [List.nil_append, logBytes_singleton] at hlong
      exact .inl ⟨⟨prompt, rfl⟩, hlong⟩
    | cons e' before =>
      obtain ⟨rfl, htail⟩ := List.cons_eq_cons.1 hlog
      exact .inr ⟨before, prompt, behind, htail, (hroom before prompt).1 hlong⟩
  · rintro (⟨⟨prompt, rfl⟩, hlong⟩ | ⟨before, prompt, behind, rfl, hlong⟩)
    · refine ⟨[], prompt, log, rfl, ?_⟩
      rw [List.nil_append, logBytes_singleton]
      exact hlong
    · exact ⟨e :: before, prompt, behind, rfl, (hroom before prompt).2 hlong⟩

theorem overruns_asked_cons : Overruns n (.asked prompt :: log) ↔
    n < (lineBytes prompt).length ∨ Overruns (n - (lineBytes prompt).length) log := by
  rw [overruns_cons, and_iff_right ⟨prompt, rfl⟩]
  rfl

/-- A message that is shown only takes up room. -/
theorem overruns_shown_cons {message : String} : Overruns n (.shown message :: log) ↔
    Overruns (n - (lineBytes message).length) log := by
  have hshown : ¬ ∃ prompt, Event.shown message = .asked prompt := by
    rintro ⟨prompt, h⟩
    cases h
  rw [overruns_cons, or_iff_right fun h => hshown h.1]
  rfl

theorem overruns_shown_append (replies : List Reply) :
    Overruns n ((replies.map fun r => .shown r.text) ++ log) ↔
      Overruns (n - (logBytes (replies.map fun r => .shown r.text)).length) log := by
  induction replies generalizing n with
  | nil => rfl
  | cons r replies ih =>
    rw [List.map_cons, List.cons_append, overruns_shown_cons, ih, logBytes_cons,
      List.length_append, Nat.sub_sub]
    rfl

/-- The bytes of a round: the prompt, and the replies. -/
def roundBytes (prompt : String) (replies : List Reply) : List UInt8 :=
  logBytes (.asked prompt :: replies.map fun r => .shown r.text)

/-- If its prompt fits, a round only takes up room. -/
theorem overruns_round (h : (lineBytes prompt).length ≤ n) (replies : List Reply) :
    Overruns n (.asked prompt :: (replies.map fun r => .shown r.text) ++ log) ↔
      Overruns (n - (roundBytes prompt replies).length) log := by
  rw [List.cons_append, overruns_asked_cons, or_iff_right (Nat.not_lt.2 h), overruns_shown_append,
    Nat.sub_sub, roundBytes, logBytes_cons, List.length_append]
  rfl

/-! ### Writing -/

namespace Sink

variable {o : Sink} {m : Nat} {bs : List UInt8}

theorem ext_toList {o o' : Sink} (hwritten : o.written.toList = o'.written.toList)
    (hroom : o.room = o'.room) : o = o' := by
  cases o
  cases o'
  exact congrArg₂ Sink.mk (Array.toList_inj.1 hwritten) hroom

theorem written_write_of_room_none (h : o.room = none) (bs : List UInt8) :
    (o.write bs).written.toList = o.written.toList ++ bs := by
  rw [write, fitting, h, Array.toList_appendList]
  exact congrArg _ List.take_length

theorem written_write_of_room (h : o.room = some m) (bs : List UInt8) :
    (o.write bs).written.toList = o.written.toList ++ bs.take m := by
  rw [write, fitting, h, Array.toList_appendList, Option.map_some, Option.getD_some, Nat.min_comm,
    ← List.take_eq_take_min]

theorem room_write_of_room (h : o.room = some m) (bs : List UInt8) :
    (o.write bs).room = some (m - bs.length) := by
  rw [write, h]
  rfl

/-- The bytes are accepted if there is room for them. -/
theorem accepts_iff (h : o.room = some m) : o.accepts bs = true ↔ bs.length ≤ m := by
  rw [accepts, fitting, h, decide_eq_true_eq]
  show min bs.length m = bs.length ↔ bs.length ≤ m
  omega

theorem write_nil (o : Sink) : o.write [] = o := by
  refine ext_toList ?_ ?_
  · rw [write, Array.toList_appendList, List.take_nil, List.append_nil]
  · cases h : o.room <;> simp [write, h]

/-- Writing piece by piece or all at once is the same. -/
theorem write_write (o : Sink) (as bs : List UInt8) :
    (o.write as).write bs = o.write (as ++ bs) := by
  cases h : o.room with
  | none =>
    have has : (o.write as).room = none := room_write h as
    refine ext_toList ?_ ((room_write has bs).trans (room_write h (as ++ bs)).symm)
    rw [written_write_of_room_none has, written_write_of_room_none h,
      written_write_of_room_none h, List.append_assoc]
  | some m =>
    have has : (o.write as).room = some (m - as.length) := room_write_of_room h as
    refine ext_toList ?_ ?_
    · rw [written_write_of_room has, written_write_of_room h, written_write_of_room h,
        List.append_assoc, List.take_append]
    · rw [room_write_of_room has, room_write_of_room h, List.length_append, Nat.sub_sub]

/-- Nothing is written behind bytes that are not all accepted. -/
theorem write_append_of_not_accepts (h : o.accepts bs = false) (bs' : List UInt8) :
    o.write (bs ++ bs') = o.write bs := by
  cases hroom : o.room with
  | none => cases h.symm.trans (accepts_of_room hroom bs)
  | some m =>
    have hlong : m < bs.length := by
      rwa [← Bool.not_eq_true, accepts_iff hroom, Nat.not_le] at h
    have hfull : (o.write bs).room = some 0 := by
      rw [room_write_of_room hroom, Nat.sub_eq_zero_of_le hlong.le]
    rw [← write_write]
    refine ext_toList ?_ ?_
    · rw [written_write_of_room hfull, List.take_zero, List.append_nil]
    · rw [room_write_of_room hfull, hfull, Nat.zero_sub]

end Sink

/-- Replies are written one behind the other. -/
theorem displayAll_eq (replies : List Reply) (k : State) : console.displayAll replies k =
    ⟨k.input, k.output.write (logBytes (replies.map fun r => .shown r.text))⟩ := by
  induction replies generalizing k with
  | nil => exact congrArg (State.mk k.input) (Sink.write_nil k.output).symm
  | cons r replies ih =>
    calc console.displayAll (r :: replies) k
        = console.displayAll replies ⟨k.input, k.output.write (lineBytes r.text)⟩ := rfl
      _ = _ := by
        rw [ih, Sink.write_write]
        rfl

/-! ### One round -/

section Round

variable {line : Segment UInt8} {rest : List (Segment UInt8)} (hs : s.isFinished = false)
  (t : Tree)

include hs

/-- A prompt that cannot be written ends the dialogue. -/
theorem converse_of_not_accepts (h : k.output.accepts (lineBytes s.prompt) = false) :
    console.converse s t k =
      ⟨s, t, ⟨k.input, k.output.write (lineBytes s.prompt)⟩, some outputClosed⟩ := by
  have hask : console.ask s.prompt k =
      .broken outputClosed ⟨k.input, k.output.write (lineBytes s.prompt)⟩ := by
    simp only [console, ask]
    rw [if_neg (Bool.eq_false_iff.1 h)]
  rw [Console.converse_of_not_finished hs, hask]

theorem converse_of_segments_nil (h : k.output.accepts (lineBytes s.prompt) = true)
    (hsegments : segments lineFeed k.input = []) : console.converse s t k =
      ⟨(s.finish t).session, (s.finish t).tree,
        ⟨[], k.output.write (roundBytes s.prompt (s.finish t).replies)⟩, none⟩ := by
  rw [Console.converse_of_not_finished hs,
    ask_of_input_nil h (segments_eq_nil_iff.1 hsegments)]
  dsimp only
  rw [displayAll_eq, Sink.write_write]
  rfl

theorem converse_of_error (h : k.output.accepts (lineBytes s.prompt) = true)
    (hsegments : segments lineFeed k.input = line :: rest) {why : Breakdown}
    (hanswer : answer line.items = .error why) : console.converse s t k =
      ⟨s, t, ⟨(takeLine k.input).2, k.output.write (lineBytes s.prompt)⟩, some why⟩ := by
  rw [Console.converse_of_not_finished hs, ask_of_segments h hsegments, hanswer]
  rfl

theorem converse_of_ok (h : k.output.accepts (lineBytes s.prompt) = true)
    (hsegments : segments lineFeed k.input = line :: rest) {text : String}
    (hanswer : answer line.items = .ok text) : console.converse s t k =
      console.converse (s.submit t text).session (s.submit t text).tree
        ⟨(takeLine k.input).2, k.output.write (roundBytes s.prompt (s.submit t text).replies)⟩ := by
  rw [Console.converse_of_not_finished hs, ask_of_segments h hsegments, hanswer]
  show console.converse _ _ (console.displayAll _ _) = _
  rw [displayAll_eq, Sink.write_write]
  rfl

end Round

/-! ### Dialogues -/

/-- A session that goes on asks first. -/
theorem exists_events_eq (hs : s.isFinished = false) (t : Tree) (cues : List Script.Cue) :
    ∃ behind, events s t cues = .asked s.prompt :: behind := by
  cases cues with
  | nil => exact ⟨_, Script.events_nil hs t⟩
  | cons cue cues =>
    cases cue with
    | line text => exact ⟨_, Script.events_line hs t text cues⟩
    | failure message => exact ⟨_, Script.events_failure hs t message cues⟩

theorem cues_eq_nil (h : segments lineFeed k.input = []) : cues k.input = [] := by
  rw [cues, h, List.map_nil]

theorem cues_eq_cons {line : Segment UInt8} {rest : List (Segment UInt8)}
    (h : segments lineFeed k.input = line :: rest) :
    cues k.input = cue line :: cues (takeLine k.input).2 := by
  rw [cues, cues, h, (takeLine_of_segments h).2.2, List.map_cons]

/-- Induction along a dialogue. -/
@[elab_as_elim]
theorem converse_induction {motive : Session → Tree → State → Prop}
    (finished : ∀ {s} (t k), s.isFinished = true → motive s t k)
    (refused : ∀ {s} (t) {k}, s.isFinished = false →
      k.output.accepts (lineBytes s.prompt) = false → motive s t k)
    (closed : ∀ {s} (t) {k}, s.isFinished = false →
      k.output.accepts (lineBytes s.prompt) = true → segments lineFeed k.input = [] → motive s t k)
    (broken : ∀ {s} (t) {k line rest why}, s.isFinished = false →
      k.output.accepts (lineBytes s.prompt) = true → segments lineFeed k.input = line :: rest →
      answer line.items = .error why → motive s t k)
    (line : ∀ {s} (t) {k line rest text}, s.isFinished = false →
      k.output.accepts (lineBytes s.prompt) = true → segments lineFeed k.input = line :: rest →
      answer line.items = .ok text →
      motive (s.submit t text).session (s.submit t text).tree
        ⟨(takeLine k.input).2, k.output.write (roundBytes s.prompt (s.submit t text).replies)⟩ →
      motive s t k)
    (s : Session) (t : Tree) (k : State) : motive s t k := by
  induction hsegments : segments lineFeed k.input generalizing s t k with
  | nil =>
    cases hs : s.isFinished with
    | true => exact finished t k hs
    | false =>
      cases haccepts : k.output.accepts (lineBytes s.prompt) with
      | false => exact refused t hs haccepts
      | true => exact closed t hs haccepts hsegments
  | cons first rest ih =>
    cases hs : s.isFinished with
    | true => exact finished t k hs
    | false =>
      cases haccepts : k.output.accepts (lineBytes s.prompt) with
      | false => exact refused t hs haccepts
      | true =>
        cases hanswer : answer first.items with
        | error why => exact broken t hs haccepts hsegments hanswer
        | ok text =>
          exact line t hs haccepts hsegments hanswer
            (ih _ _ _ (takeLine_of_segments hsegments).2.2)

/-- What is seen of a dialogue is written, as far as there is room. -/
theorem output_converse (s : Session) (t : Tree) (k : State) :
    (console.converse s t k).console.output =
      k.output.write (logBytes (events s t (cues k.input))) := by
  induction s, t, k using converse_induction with
  | finished t k hs =>
    rw [Console.converse_of_finished hs, Script.events_of_finished hs]
    exact (Sink.write_nil _).symm
  | @refused s t k hs haccepts =>
    obtain ⟨behind, hevents⟩ := exists_events_eq hs t (cues k.input)
    rw [converse_of_not_accepts hs t haccepts, hevents, logBytes_cons]
    exact (Sink.write_append_of_not_accepts haccepts _).symm
  | closed t hs haccepts hsegments =>
    rw [converse_of_segments_nil hs t haccepts hsegments, cues_eq_nil hsegments,
      Script.events_nil hs]
    rfl
  | @broken s t k line rest why hs haccepts hsegments hanswer =>
    have hcue : cue line = .failure why.message := by rw [cue, hanswer]
    rw [converse_of_error hs t haccepts hsegments hanswer, cues_eq_cons hsegments, hcue,
      Script.events_failure hs, logBytes_singleton]
    rfl
  | @line s t k line rest text hs haccepts hsegments hanswer ih =>
    have hcue : cue line = .line text := by rw [cue, hanswer]
    rw [converse_of_ok hs t haccepts hsegments hanswer, ih, cues_eq_cons hsegments, hcue,
      Script.events_line hs, Sink.write_write, logBytes_append]
    rfl

/-- How a dialogue with a limited output, `d`, compares with the same dialogue without limit, `u`:
it stops at a prompt, if there is one that does not fit, and otherwise it comes to the same. -/
inductive Outcome (overruns : Prop) (d u : Dialogue State) : Prop where
  | stopped (hoverruns : overruns) (hbreakdown : d.breakdown = some outputClosed)
      (hsession : d.session.isFinished = false)
  | same (hfits : ¬ overruns) (hsession : d.session = u.session) (htree : d.tree = u.tree)
      (hbreakdown : d.breakdown = u.breakdown)

/-- The dialogue with the limited output is the other one, unless a prompt does not fit. -/
theorem outcome_converse {m : Nat} (hroom : k.output.room = some m) (hroom' : k'.output.room = none)
    (hinput : k'.input = k.input) (s : Session) (t : Tree) :
    Outcome (Overruns m (events s t (cues k.input))) (console.converse s t k)
      (console.converse s t k') := by
  induction s, t, k using converse_induction generalizing m k' with
  | finished t k hs =>
    rw [Console.converse_of_finished hs, Console.converse_of_finished hs,
      Script.events_of_finished hs]
    exact .same not_overruns_nil rfl rfl rfl
  | @refused s t k hs haccepts =>
    obtain ⟨behind, hevents⟩ := exists_events_eq hs t (cues k.input)
    rw [converse_of_not_accepts hs t haccepts, hevents]
    rw [← Bool.not_eq_true, Sink.accepts_iff hroom, Nat.not_le] at haccepts
    exact .stopped (overruns_asked_cons.2 (.inl haccepts)) rfl hs
  | @closed s t k hs haccepts hsegments =>
    have hfits := (Sink.accepts_iff hroom).1 haccepts
    have hshown : ¬ Overruns m
        (.asked s.prompt :: (s.finish t).replies.map fun r => .shown r.text) := by
      rw [← List.append_nil (_ :: _), overruns_round hfits]
      exact not_overruns_nil
    rw [converse_of_segments_nil hs t haccepts hsegments,
      converse_of_segments_nil hs t (accepts_of_room hroom' _) (hinput ▸ hsegments),
      cues_eq_nil hsegments, Script.events_nil hs]
    exact .same hshown rfl rfl rfl
  | @broken s t k line rest why hs haccepts hsegments hanswer =>
    have hfits := (Sink.accepts_iff hroom).1 haccepts
    have hcue : cue line = .failure why.message := by rw [cue, hanswer]
    have hshown : ¬ Overruns m [.asked s.prompt] := by
      rw [overruns_asked_cons, or_iff_right (Nat.not_lt.2 hfits)]
      exact not_overruns_nil
    rw [converse_of_error hs t haccepts hsegments hanswer,
      converse_of_error hs t (accepts_of_room hroom' _) (hinput ▸ hsegments) hanswer,
      cues_eq_cons hsegments, hcue, Script.events_failure hs]
    exact .same hshown rfl rfl rfl
  | @line s t k line rest text hs haccepts hsegments hanswer ih =>
    have hfits := (Sink.accepts_iff hroom).1 haccepts
    have hcue : cue line = .line text := by rw [cue, hanswer]
    rw [converse_of_ok hs t haccepts hsegments hanswer,
      converse_of_ok hs t (accepts_of_room hroom' _) (hinput ▸ hsegments) hanswer,
      cues_eq_cons hsegments, hcue, Script.events_line hs, overruns_round hfits]
    exact ih (Sink.room_write_of_room hroom _) (room_write hroom' _)
      (congrArg (fun input => (takeLine input).2) hinput)

/-- **An output that is cut off.** With room for `n` bytes a dialogue writes the first `n` bytes of
what it writes without limit, and that is what the same dialogue shows when it follows a script. If
a prompt does not end within them, the dialogue stops before the session is finished and tells that
the output is closed. Otherwise it ends as it does without limit, with the same session and the same
files. -/
theorem run_limited (input : List UInt8) (s : Session) (t : Tree) (n : Nat) :
    let d := console.run s t (.start input (some n))
    let u := console.run s t (.start input none)
    let log := (Script.console.run s t (.start (cues input))).console.log
    u.console.output.written.toList = logBytes log ∧
    d.console.output.written.toList = u.console.output.written.toList.take n ∧
    Outcome (Overruns n log) d u := by
  intro d u log
  have hlog : log = .shown s.banner :: events s t (cues input) := Script.log_run s t (cues input)
  have houtput (room : Option Nat) : (console.run s t (.start input room)).console.output =
      (⟨#[], room⟩ : Sink).write (logBytes log) := by
    rw [Console.run, output_converse, hlog, logBytes_cons, ← Sink.write_write]
    rfl
  have hwhole : u.console.output.written.toList = logBytes log := by
    rw [houtput none, Sink.written_write_of_room_none rfl]
    rfl
  refine ⟨hwhole, ?_, ?_⟩
  · rw [hwhole, houtput (some n), Sink.written_write_of_room rfl]
    rfl
  · have hroom : (console.display s.banner (.start input (some n))).output.room =
        some (n - (lineBytes s.banner).length) := Sink.room_write_of_room rfl _
    have hroom' : (console.display s.banner (.start input none)).output.room = none :=
      room_write rfl _
    rw [hlog, overruns_shown_cons]
    exact outcome_converse hroom hroom' rfl s t

/-- With room for the prompt the goodbye is lost, and with one byte less the line is not read. -/
example :
    let s := Session.new ⟨[], ⟨"h.log"⟩⟩ ⟨"/"⟩
    let n := (logBytes [.shown s.banner, .asked s.prompt]).length
    let d := fun room => console.run s (.empty []) (.start [0x71, 0x0A] (some room))
    (d n).breakdown = none ∧ (d (n - 1)).breakdown = some outputClosed := by
  decide +kernel

end Plain

end Reckoner
