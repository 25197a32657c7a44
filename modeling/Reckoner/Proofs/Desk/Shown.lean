import Reckoner.Desk.Transcript
import Reckoner.Proofs.Expression.Accepted
import Reckoner.Proofs.Expression.Spacing
import Reckoner.Proofs.Session.Calls
import Reckoner.Proofs.Session.Commands

/-!
# The line that the transcript shows

The transcript shows a line in its spaced form, which is made from the line without its blanks.
Where two tokens stood apart only because of a blank, the spaced form runs them together, and it
takes the word `details` for the beginning of an expression. So what is shown can be another line
than the one that was submitted.

The shown line asks for the calculations exactly if the line without its blanks is the word
`details` in front of an operator, and then the rest is its expression; otherwise all of it is
(`ofLine_spaced_of_parts`, `ofLine_spaced_of_not_parts`). Submitting it again has the outcome that
the line itself had, unless the line is `Misshown`.
-/

namespace Reckoner

open Text Expression

/-! ### What the shown line asks for -/

open Command (IsDetails ofTrimmed)

variable {line g w z : List Char} {e : String} {detailed : Bool}

/-- Without its blanks the line is the word `details` and `g`, which begins with an operator. -/
def Parts (line g : List Char) : Prop :=
  ∃ w, IsDetails w ∧ unblanked line = w ++ g ∧ ∃ o ∈ g.head?, isOperatorChar o = true

theorem not_accepted_of_isAlpha {c : Char} {cs : List Char} (hc : c.isAlpha = true) :
    ¬ Accepted (c :: cs) := by
  intro h
  have hn := Command.toNat_of_isAlpha hc
  rcases h.head (Command.isBlank_of_isAlpha hc) with hdigit | hmem
  · rw [isNumeral, Bool.or_eq_true, beq_iff_eq, Char.isDigit_iff_toNat] at hdigit
    rcases hdigit with ⟨-, hhigh⟩ | rfl
    · have hle : c.toNat ≤ 57 := hhigh
      omega
    · exact absurd hc (by decide)
  · simp only [List.mem_cons, List.not_mem_nil, or_false] at hmem
    rcases hmem with rfl | rfl | rfl <;> exact absurd hc (by decide)

/-- No expression begins with the word. -/
theorem not_accepted_of_details {cs : List Char} (hw : IsDetails w)
    (h : lexemes cs = lexemes (w ++ g)) : ¬ Accepted cs := by
  rw [(alike_of_lexemes h).accepted_iff]
  obtain ⟨c, cs, rfl⟩ := List.exists_cons_of_ne_nil hw.ne_nil
  exact not_accepted_of_isAlpha (hw.isAlpha_of_mem List.mem_cons_self)

theorem isBlank_of_mem_details {c : Char} (hw : IsDetails w) (hc : c ∈ w) : isBlank c = false :=
  Command.isBlank_of_isAlpha (hw.isAlpha_of_mem hc)

theorem unblanked_details (hw : IsDetails w) (z : List Char) :
    unblanked (w ++ ' ' :: z) = w ++ unblanked z := by
  rw [unblanked_append, unblanked_of_not_blank fun c hc => isBlank_of_mem_details hw hc,
    unblanked_blank isBlank_space]

/-- The word stays at the beginning of the shown line. -/
theorem spaced_details (hw : IsDetails w) (h : unblanked line = w ++ g) :
    spaced line = w ++ joined (spread true g) := by
  have hoperand : ∀ c ∈ w, IsOperandChar c := fun c hc =>
    isOperandChar_of (hw.isAlpha_of_mem hc) (by decide)
  rw [spaced, ← unblanked, h, spread_operands hw.ne_nil hoperand,
    unwords_words_append hw.ne_nil fun c hc => isBlank_of_mem_details hw hc]

/-- An operator behind the word is set apart from it. -/
theorem Parts.exists_spaced_eq (h : Parts line g) :
    ∃ w z, IsDetails w ∧ z ≠ [] ∧ spaced line = w ++ ' ' :: z ∧ lexemes z = lexemes g := by
  obtain ⟨w, hw, hline, o, ho, hop⟩ := h
  obtain ⟨g', rfl⟩ : ∃ g', g = o :: g' := List.head?_eq_some_iff.mp ho
  obtain ⟨ds, hspread, hds⟩ := spread_true_operator hop g'
  obtain ⟨v, vs, hwords, -⟩ := exists_words_eq hds
  refine ⟨w, unwords (words ds), hw, ?_, ?_, ?_⟩
  · exact unwords_words_ne_nil (hwords ▸ List.cons_ne_nil v vs)
  · rw [spaced_details hw hline, hspread, joined_space hds]
  · rw [lexemes_unwords_words, ← lexemes_spread true (o :: g'), hspread,
      lexemes_blank isBlank_space]

/-- Nothing else is. -/
theorem exists_parts (hw : IsDetails w) (h : spaced line = w ++ ' ' :: z) : ∃ g, Parts line g := by
  have hline : unblanked line = w ++ unblanked z := by
    rw [← unblanked_spaced, h, unblanked_details hw]
  have hjoined : joined (spread true (unblanked z)) = ' ' :: z :=
    List.append_cancel_left ((spaced_details hw hline).symm.trans h)
  refine ⟨unblanked z, w, hw, hline, ?_⟩
  cases hz : unblanked z with
  | nil =>
    rw [hz] at hjoined
    cases hjoined
  | cons c cs =>
    refine ⟨c, rfl, ?_⟩
    by_contra hop
    have hc : isBlank c = false := isBlank_of_mem_unblanked (hz ▸ List.mem_cons_self)
    obtain ⟨b, hspread⟩ : ∃ b, spread true (c :: cs) = c :: spread b cs := by
      by_cases hp : c = '('
      · exact ⟨false, hp ▸ spread_opening true cs⟩
      · exact ⟨true, spread_operand ⟨Bool.not_eq_true _ ▸ hop, hp⟩ true cs⟩
    rw [hz, hspread, joined_cons hc, List.cons.injEq] at hjoined
    rw [hjoined.1] at hc
    exact absurd hc (by decide)

/-- The command for the shown line. -/
theorem ofLine_spaced (line : List Char) :
    Command.ofLine (String.ofList (spaced line)) = ofTrimmed (spaced line) := by
  rw [Command.ofLine, String.toList_ofList, trim_spaced]

/-- If the line parts behind the word, the rest of it is shown as an expression to be detailed. -/
theorem ofLine_spaced_of_parts (h : Parts line g) :
    ∃ cs, Command.ofLine (String.ofList (spaced line)) = .evaluate (String.ofList cs) true ∧
      lexemes cs = lexemes g := by
  obtain ⟨w, z, hw, hz, hspaced, hlex⟩ := h.exists_spaced_eq
  refine ⟨trim z, ?_, by rw [lexemes_trim, hlex]⟩
  rw [ofLine_spaced, hspaced, Command.ofTrimmed_details hw hz]

/-- Otherwise all of it is shown as an expression. -/
theorem ofLine_spaced_of_not_parts (hline : trim line = line)
    (h : ofTrimmed line = .evaluate e detailed) (hnot : ∀ g, ¬ Parts line g) :
    Command.ofLine (String.ofList (spaced line)) =
      .evaluate (String.ofList (spaced line)) false := by
  have hplain : ∀ w z, IsDetails w → z ≠ [] → spaced line ≠ w ++ ' ' :: z := fun w z hw _ hspaced =>
    (exists_parts hw hspaced).elim hnot
  rw [ofLine_spaced]
  by_cases hlen : (spaced line).length = 1
  · -- one character is shown as it was submitted
    obtain ⟨c, hc⟩ := List.length_eq_one_iff.mp hlen
    have hblank : isBlank c = false := isBlank_of_trim_eq ((trim_spaced line).trans hc)
    have hunblanked : unblanked line = [c] := by
      rw [← unblanked_spaced, hc, unblanked_cons hblank]
      rfl
    obtain rfl := eq_singleton_of_unblanked hline hunblanked
    rw [hc] at hplain ⊢
    rcases Command.ofTrimmed_eq_evaluate h with ⟨w, z, hw, hz, hcs, -⟩ | ⟨rfl, rfl⟩
    · exact absurd hcs (hplain w z hw hz)
    · exact h
  · exact Command.ofTrimmed_plain hlen hplain

/-! ### Lines that are misshown -/

/-- How the line that is shown for a line, given without blanks around it, can have another outcome
than the line. -/
inductive Misshown (line : List Char) : Prop
  /-- The word `details` is shown as the beginning of the expression. -/
  | details {cs : List Char} (h : ofTrimmed line = .evaluate (String.ofList cs) true)
      (hcs : Accepted cs) (hsign : ¬ Signed cs)
  /-- The expression is refused, and tokens that are shown run together make it one that is not. -/
  | joined {cs : List Char} {detailed : Bool}
      (h : ofTrimmed line = .evaluate (String.ofList cs) detailed) (hcs : ¬ Accepted cs)
      (hunblanked : Accepted (unblanked cs)) (hsign : detailed = true → Signed cs)
  /-- The expression is refused, and what it is shown as begins with the word `details`. -/
  | parted {w g : List Char} (h : ofTrimmed line = .evaluate (String.ofList line) false)
      (hw : IsDetails w) (hline : unblanked line = w ++ g) (hg : Accepted g) (hsign : Signed g)

section Misshown

variable {cs : List Char}

theorem misshown_iff_of_details (h : ofTrimmed line = .evaluate (String.ofList cs) true) :
    Misshown line ↔ (Accepted cs ∧ ¬ Signed cs) ∨
      (¬ Accepted cs ∧ Accepted (unblanked cs) ∧ Signed cs) := by
  constructor
  · rintro (⟨h', hcs, hsign⟩ | ⟨h', hcs, hunblanked, hsign⟩ | ⟨h', -, -, -, -⟩)
    · rw [h, Command.evaluate.injEq, String.ofList_inj] at h'
      obtain ⟨rfl, -⟩ := h'
      exact Or.inl ⟨hcs, hsign⟩
    · rw [h, Command.evaluate.injEq, String.ofList_inj] at h'
      obtain ⟨rfl, hdetailed⟩ := h'
      exact Or.inr ⟨hcs, hunblanked, hsign hdetailed.symm⟩
    · rw [h, Command.evaluate.injEq] at h'
      exact absurd h'.2 (by decide)
  · rintro (⟨hcs, hsign⟩ | ⟨hcs, hunblanked, hsign⟩)
    · exact .details h hcs hsign
    · exact .joined h hcs hunblanked fun _ => hsign

theorem misshown_iff_of_plain (h : ofTrimmed line = .evaluate (String.ofList line) false) :
    Misshown line ↔ (¬ Accepted line ∧ Accepted (unblanked line)) ∨
      ∃ w g, IsDetails w ∧ unblanked line = w ++ g ∧ Accepted g ∧ Signed g := by
  constructor
  · rintro (⟨h', -, -⟩ | ⟨h', hcs, hunblanked, -⟩ | ⟨-, hw, hline, hg, hsign⟩)
    · rw [h, Command.evaluate.injEq] at h'
      exact absurd h'.2 (by decide)
    · rw [h, Command.evaluate.injEq, String.ofList_inj] at h'
      obtain ⟨rfl, -⟩ := h'
      exact Or.inl ⟨hcs, hunblanked⟩
    · exact Or.inr ⟨_, _, hw, hline, hg, hsign⟩
  · rintro (⟨hcs, hunblanked⟩ | ⟨w, g, hw, hline, hg, hsign⟩)
    · exact .joined h hcs hunblanked (by rintro ⟨⟩)
    · exact .parted h hw hline hg hsign

end Misshown

/-! ### Outcomes -/

section Outcomes

variable {cs : List Char}

/-- The word that a line is parted behind has seven letters. -/
theorem Parts.eq (h : Parts line g) (hw : IsDetails w) (hline : unblanked line = w ++ z) :
    g = z ∧ ∃ o ∈ z.head?, isOperatorChar o = true := by
  obtain ⟨v, hv, hv', hop⟩ := h
  obtain ⟨-, rfl⟩ := List.append_inj (hv'.symm.trans hline) (hv.length_eq.trans hw.length_eq.symm)
  exact ⟨rfl, hop⟩

/-- What becomes of a line that asks for the calculations. -/
theorem alike_spaced_of_details (hline : trim (w ++ ' ' :: z) = w ++ ' ' :: z) (hw : IsDetails w)
    (hz : z ≠ []) : ∃ ds detailed,
      Command.ofLine (String.ofList (spaced (w ++ ' ' :: z))) =
        .evaluate (String.ofList ds) detailed ∧
      (Alike (trim z) ds ↔ ¬ Misshown (w ++ ' ' :: z)) := by
  have h := Command.ofTrimmed_details hw hz
  have hunblanked : unblanked (w ++ ' ' :: z) = w ++ unblanked (trim z) := by
    rw [unblanked_details hw, unblanked_trim]
  have hhead : Signed (unblanked (trim z)) ↔ Signed (trim z) := by
    rw [Signed, head?_unblanked_trim, Signed]
  rw [misshown_iff_of_details h]
  by_cases hparts : ∃ g, Parts (w ++ ' ' :: z) g
  · -- the expression is shown without its blanks
    obtain ⟨g, hg⟩ := hparts
    obtain ⟨ds, hcommand, hlex⟩ := ofLine_spaced_of_parts hg
    obtain ⟨rfl, hop⟩ := hg.eq hw hunblanked
    have hsigned : Accepted (unblanked (trim z)) → Signed (trim z) := fun hacc =>
      hhead.mp (hacc.signed hop)
    have hsigned' : Accepted (trim z) → Signed (trim z) := fun hacc =>
      hsigned ((alike_of_lexemes hacc.lexemes_unblanked).accepted_iff.mpr hacc)
    refine ⟨ds, true, hcommand, (alike_iff_of_lexemes_unblanked hlex).trans (not_congr ?_)⟩
    constructor
    · exact fun ⟨hrefused, hacc⟩ => Or.inr ⟨hrefused, hacc, hsigned hacc⟩
    · rintro (⟨hacc, hunsigned⟩ | ⟨hrefused, hacc, -⟩)
      · exact absurd (hsigned' hacc) hunsigned
      · exact ⟨hrefused, hacc⟩
  · -- the word is shown as a part of the expression, which is refused
    have hnot : ∀ g, ¬ Parts (w ++ ' ' :: z) g := fun g hg => hparts ⟨g, hg⟩
    have hrefused : ¬ Accepted (spaced (w ++ ' ' :: z)) :=
      not_accepted_of_details hw (by rw [lexemes_spaced, hunblanked])
    have hunsigned : ¬ Signed (trim z) := fun hsigned =>
      hnot _ ⟨w, hw, hunblanked, (hhead.mpr hsigned).operator⟩
    refine ⟨_, false, ofLine_spaced_of_not_parts hline h hnot, ?_⟩
    rw [alike_comm, alike_iff_of_not_accepted hrefused, not_iff_not]
    constructor
    · exact fun hacc => Or.inl ⟨hacc, hunsigned⟩
    · rintro (⟨hacc, -⟩ | ⟨-, -, hsigned⟩)
      · exact hacc
      · exact absurd hsigned hunsigned

/-- What becomes of every other line. -/
theorem alike_spaced_of_plain (hline : trim line = line)
    (h : ofTrimmed line = .evaluate (String.ofList line) false) : ∃ ds detailed,
      Command.ofLine (String.ofList (spaced line)) = .evaluate (String.ofList ds) detailed ∧
      (Alike line ds ↔ ¬ Misshown line) := by
  rw [misshown_iff_of_plain h]
  by_cases hparts : ∃ g, Parts line g
  · -- the line begins with the word and is refused
    obtain ⟨g, hg⟩ := hparts
    obtain ⟨ds, hcommand, hlex⟩ := ofLine_spaced_of_parts hg
    obtain ⟨w, hw, hunblanked, hop⟩ := id hg
    have hrefused : ¬ Accepted (unblanked line) := not_accepted_of_details hw (by rw [hunblanked])
    have hrefused' : ¬ Accepted line := fun hacc =>
      hrefused ((alike_of_lexemes hacc.lexemes_unblanked).accepted_iff.mpr hacc)
    refine ⟨ds, true, hcommand, ?_⟩
    rw [alike_iff_of_not_accepted hrefused', (alike_of_lexemes hlex).accepted_iff, not_iff_not]
    constructor
    · exact fun hacc => Or.inr ⟨w, g, hw, hunblanked, hacc, hacc.signed hop⟩
    · rintro (⟨-, hacc⟩ | ⟨v, z, hv, hz, hacc, -⟩)
      · exact absurd hacc hrefused
      · exact (hg.eq hv hz).1 ▸ hacc
  · -- the line is shown without its blanks
    have hnot : ∀ g, ¬ Parts line g := fun g hg => hparts ⟨g, hg⟩
    have hunparted : ¬ ∃ w g, IsDetails w ∧ unblanked line = w ++ g ∧ Accepted g ∧ Signed g := by
      rintro ⟨w, g, hw, hg, -, hsigned⟩
      exact hnot g ⟨w, hw, hg, hsigned.operator⟩
    refine ⟨_, false, ofLine_spaced_of_not_parts hline h hnot, ?_⟩
    rw [alike_iff_of_lexemes_unblanked (lexemes_spaced line), or_iff_left hunparted]

/-- What becomes of a line without blanks around it. -/
theorem alike_spaced_iff (hline : trim line = line)
    (h : ofTrimmed line = .evaluate (String.ofList cs) detailed) : ∃ ds detailed',
      Command.ofLine (String.ofList (spaced line)) = .evaluate (String.ofList ds) detailed' ∧
      (Alike cs ds ↔ ¬ Misshown line) := by
  rcases Command.ofTrimmed_eq_evaluate h with ⟨w, z, hw, hz, rfl, hcs, -⟩ | ⟨hcs, rfl⟩
  · rw [String.ofList_inj] at hcs
    rw [hcs]
    exact alike_spaced_of_details hline hw hz
  · rw [String.ofList_inj] at hcs
    rw [hcs] at h ⊢
    exact alike_spaced_of_plain hline h

end Outcomes

/-! ### Entries of the transcript -/

/-- Whether two lines have been answered with the same value, or both refused. -/
inductive SameOutcome : List Reply → List Reply → Prop
  | value {x : Number} {e e' : String} {steps steps' : List Calculation} :
      SameOutcome [.value e x steps] [.value e' x steps']
  | failed {e e' : String} {f f' : Fault} : SameOutcome [.failed e f] [.failed e' f']

theorem sameOutcome_evaluate_iff (s s' : Session) (t t' : Files.Tree) (cs ds : List Char)
    (detailed detailed' : Bool) :
    SameOutcome (s.evaluate t (String.ofList cs) detailed).replies
      (s'.evaluate t' (String.ofList ds) detailed').replies ↔ Alike cs ds := by
  rw [Session.evaluate_eq, Session.evaluate_eq, Alike]
  cases hcs : evaluate (String.ofList cs) with
  | ok x =>
    cases hds : evaluate (String.ofList ds) with
    | ok y =>
      constructor
      · rintro ⟨⟩ v
        rfl
      · intro h
        obtain rfl := Except.ok.inj ((h x).mp rfl)
        exact .value
    | error f =>
      constructor
      · rintro ⟨⟩
      · exact fun h => nomatch (h x).mp rfl
  | error f =>
    cases hds : evaluate (String.ofList ds) with
    | ok y =>
      constructor
      · rintro ⟨⟩
      · exact fun h => nomatch (h y).mpr rfl
    | error f' => exact iff_of_true .failed fun v => iff_of_false nofun nofun

namespace Desk

variable {d : Desk}

/-- A line that is not blank and no path is entered into the transcript with the replies to it. -/
theorem submit_of_ready (hready : d.session.phase = .ready) (hinput : ¬ AllBlank d.input)
    (elapsed : Nat) :
    let turn := d.session.execute d.tree (ofTrimmed (trim d.input))
    (d.submit elapsed).transcript = d.transcript ++ [⟨trim d.input, turn.replies, elapsed, false⟩] ∧
      (d.submit elapsed).session = turn.session := by
  have hpath : d.session.isAwaitingPath = false := by
    rw [Session.isAwaitingPath, hready]
    rfl
  have hguard : ¬ (decide (trim d.input = []) && !d.session.isAwaitingPath) = true := by
    rw [Bool.and_eq_true, decide_eq_true_eq, trim_eq_nil_iff]
    exact fun h => hinput h.1
  have hcommand : Command.ofLine (String.ofList (trim d.input)) = ofTrimmed (trim d.input) := by
    rw [Command.ofLine, String.toList_ofList, trim_trim]
  rw [submit, if_neg hguard, Session.submit_of_ready hready, hcommand, hpath]
  exact ⟨rfl, rfl⟩

/-- **What the transcript shows can be submitted again.** A line that is evaluated is entered into
the transcript, and submitting the text that is shown for it has the same outcome, a value or a
refusal, exactly if the line is not misshown. -/
theorem sameOutcome_shownLine_iff (hready : d.session.phase = .ready) (hinput : ¬ AllBlank d.input)
    (h : Command.ofLine (String.ofList d.input) = .evaluate e detailed) (elapsed : Nat) :
    let d' := d.submit elapsed
    ∃ entry, d'.transcript = d.transcript ++ [entry] ∧
      (SameOutcome entry.replies
          (d'.session.submit d'.tree (String.ofList entry.shownLine)).replies ↔
        ¬ Misshown (trim d.input)) := by
  intro d'
  obtain ⟨htranscript, hsession⟩ := submit_of_ready hready hinput elapsed
  rw [Command.ofLine, String.toList_ofList, ← String.ofList_toList (s := e)] at h
  refine ⟨_, htranscript, ?_⟩
  obtain ⟨ds, detailed', hshown, halike⟩ := alike_spaced_iff (trim_trim d.input) h
  have hready' : d'.session.phase = .ready := by
    rw [hsession, h, Session.execute, Session.evaluate_eq]
    split <;> exact hready
  rw [← halike, h, Session.submit_of_ready hready', Entry.shownLine, if_neg Bool.false_ne_true,
    hshown]
  exact sameOutcome_evaluate_iff _ _ _ _ _ _ _ _

/-- A request for the calculations is shown faithfully if the expression begins with a sign: the
sign stands apart from the word in what is shown. -/
theorem sameOutcome_shownLine_sign :
    let s := Session.new ⟨[], ⟨"h.log"⟩⟩ ⟨"/"⟩
    let d' := ({ Desk.new s (.empty []) with input := " details -1+2".toList } : Desk).submit 0
    ∃ entry, d'.transcript = [entry] ∧ entry.shownLine = "details - 1 + 2".toList ∧
      SameOutcome entry.replies
        (d'.session.submit d'.tree (String.ofList entry.shownLine)).replies := by
  intro s d'
  have hcommand : ofTrimmed (trim " details -1+2".toList) =
      .evaluate (String.ofList "-1+2".toList) true := by decide +kernel
  have hline : Command.ofLine (String.ofList " details -1+2".toList) = .evaluate "-1+2" true := by
    decide +kernel
  have hinput : ¬ AllBlank " details -1+2".toList := fun h => absurd (h 'd' (by decide)) (by decide)
  have hvalue : evaluate (String.ofList "-1+2".toList) = .ok (.ofBits 0x3FF0000000000000) := by
    decide +kernel
  have hnot : ¬ Misshown (trim " details -1+2".toList) := by
    rw [misshown_iff_of_details hcommand]
    rintro (⟨-, hunsigned⟩ | ⟨hrefused, -⟩)
    · exact hunsigned (Or.inr (by decide))
    · exact hrefused ⟨_, hvalue⟩
  obtain ⟨entry, htranscript, houtcome⟩ := sameOutcome_shownLine_iff
    (d := { Desk.new s (.empty []) with input := " details -1+2".toList }) rfl hinput hline 0
  refine ⟨entry, htranscript, ?_, houtcome.mpr hnot⟩
  have hshown : d'.transcript.map Entry.shownLine = ["details - 1 + 2".toList] := by decide +kernel
  rw [htranscript] at hshown
  exact (List.cons.inj hshown).1

/-- Otherwise the word and the expression are shown as one, which is refused. -/
theorem not_sameOutcome_shownLine_details :
    let s := Session.new ⟨[], ⟨"h.log"⟩⟩ ⟨"/"⟩
    let d' := ({ Desk.new s (.empty []) with input := "details 1+2".toList } : Desk).submit 0
    ∃ entry, d'.transcript = [entry] ∧ entry.shownLine = "details1 + 2".toList ∧
      ¬ SameOutcome entry.replies
        (d'.session.submit d'.tree (String.ofList entry.shownLine)).replies := by
  intro s d'
  have htranscript : d'.transcript = [⟨"details 1+2".toList, [.value "1+2"
      (.ofBits 0x4008000000000000) [.binary (.ofBits 0x3FF0000000000000) .plus
        (.ofBits 0x4000000000000000)]], 0, false⟩] := by decide +kernel
  have hagain : (d'.session.submit d'.tree "details1 + 2").replies =
      [.failed "details1 + 2" ⟨.unexpected 'd', 0⟩] := by decide +kernel
  refine ⟨_, htranscript, by decide +kernel, ?_⟩
  have hshown : spaced "details 1+2".toList = "details1 + 2".toList := by decide +kernel
  rw [Entry.shownLine, if_neg Bool.false_ne_true, hshown, String.ofList_toList, hagain]
  rintro ⟨⟩

end Desk

end Reckoner
