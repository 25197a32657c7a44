import Reckoner.Proofs.Desk.Redrawing
import Reckoner.Proofs.Desk.Rows
import Reckoner.Proofs.Desk.Turns
import Reckoner.Proofs.Expression.Spacing
import Reckoner.Proofs.Text.Lines

/-!
# Where the entries of the transcript begin

The list of the transcript is made of blocks of rows, one for each entry, with the rule behind it
counted in. A block begins behind the rows of the blocks before it (`startsOf_eq_map`), so its place
is noted correctly whatever the blocks are. But a block without rows would begin where the next one
does, and if its entry were selected, a row of another entry would stand out.

There is no such block. Text that is not blank has a row, so an entry has rows if its line is not
blank; and a line can only be blank if it was taken as a path, and then the reply names the path
that is used from now on. So every entry that gets into the transcript `Shows`. That, and that an
entry is selected, holds of every desk (`Listed.acts`).
-/

namespace Reckoner

open Expression Files Screen Text

/-! ### Entries that show -/

namespace Desk

theorem indented_ne_nil (style : Style) {ls : List (List Char)} (h : ls ≠ []) :
    indented style ls ≠ [] := by
  cases ls with
  | nil => exact absurd rfl h
  | cons line rest => exact List.cons_ne_nil _ _

/-- A path that is named has a row, even if all its characters are blank. -/
theorem replyRows_pathChanged_ne_nil (elapsed width : Nat) (p : Path) :
    replyRows elapsed width (.pathChanged p) ≠ [] := by
  have htext : (Reply.pathChanged p).text.toList =
      "History file path changed to: ".toList ++ p.text.toList := String.toList_append
  have hfirst : 'H' ∈ (Reply.pathChanged p).text.toList :=
    htext ▸ List.mem_append_left _ (by decide)
  obtain ⟨l, hl, hmem⟩ := exists_mem_lines_of_mem hfirst (by decide) (by decide)
  have hblank : ¬ AllBlank l := fun h => absurd (h 'H' hmem) (by decide)
  obtain ⟨style, hrows⟩ := exists_replyRows_eq elapsed width (.pathChanged p)
  intro hnil
  obtain ⟨hnotes, -⟩ := List.append_eq_nil_iff.1 (hrows.symm.trans hnil)
  exact indented_ne_nil style (wrap_ne_nil hblank width) (List.flatMap_eq_nil_iff.1 hnotes l hl)

end Desk

namespace Entry

open Desk

variable {e : Entry}

/-- There is something to show for the entry: its line is not blank, or a reply names a path. -/
def Shows (e : Entry) : Prop := ¬ AllBlank e.line ∨ ∃ p, .pathChanged p ∈ e.replies

theorem not_allBlank_shownLine (h : ¬ AllBlank e.line) : ¬ AllBlank e.shownLine := by
  rw [shownLine]
  split_ifs
  · exact h
  · rwa [← unblanked_eq_nil_iff, unblanked_spaced, unblanked_eq_nil_iff]

theorem lineRows_ne_nil (h : ¬ AllBlank e.line) (selected : Bool) (limit : Nat) :
    e.lineRows selected limit ≠ [] := by
  have hwrap : wrap limit e.shownLine ≠ [] := wrap_ne_nil (not_allBlank_shownLine h) limit
  rw [lineRows]
  cases hlines : wrap limit e.shownLine with
  | nil => exact absurd hlines hwrap
  | cons first rest => exact List.cons_ne_nil _ _

/-- An entry that shows has a row. -/
theorem Shows.rows_ne_nil (h : e.Shows) (selected : Bool) (limit : Nat) :
    e.rows selected limit ≠ [] := by
  intro hnil
  obtain ⟨hline, hreplies⟩ := List.append_eq_nil_iff.1 hnil
  rcases h with hblank | ⟨p, hp⟩
  · exact lineRows_ne_nil hblank selected limit hline
  · exact replyRows_pathChanged_ne_nil e.elapsed limit p (List.flatMap_eq_nil_iff.1 hreplies _ hp)

end Entry

namespace Desk

variable {d : Desk} {size : Size}

/-! ### Every entry shows -/

/-- The entry of a call shows, for a blank line is only submitted as a path. -/
theorem shows_of_call? {a : Action} {c : Call} (h : d.call? a = some c) (elapsed : Nat)
    (isPath : Bool) :
    (⟨c.line, (d.session.call d.tree c).replies, elapsed, isPath⟩ : Entry).Shows := by
  cases a with
  | press key held _ =>
    rw [call?] at h
    split_ifs at h
    cases key with
    | enter =>
      rw [keyCall?] at h
      split_ifs at h with hskip
      cases h
      by_cases hblank : trim d.input = []
      · have hpath : d.session.phase = .awaitingPath := by
          rw [← Session.isAwaitingPath_iff]
          simpa [hblank] using hskip
        rw [Session.call, Session.submit_of_awaitingPath hpath]
        exact .inr ⟨_, List.mem_singleton_self _⟩
      · refine .inl fun hall => hblank ?_
        rw [Call.line, String.toList_ofList, ← trim_eq_nil_iff, trim_trim] at hall
        exact hall
    | char c' =>
      rw [keyCall?] at h
      split_ifs at h
      cases h
      exact .inl fun hall => absurd (hall 'q' (List.mem_singleton_self 'q')) (by decide)
    | _ => cases h
  | _ => cases h

/-- What holds of the transcript of a desk, whatever is done at it. -/
structure Listed (d : Desk) : Prop where
  /-- The last entry is the last that can be selected. -/
  selected : d.selected ≤ d.transcript.length - 1
  shows : ∀ e ∈ d.transcript, e.Shows
  /-- When the end is to be shown, the last entry is selected. -/
  newest : d.toBottom = true → d.selected + 1 = d.transcript.length

namespace Listed

theorem new (s : Session) (t : Tree) : (Desk.new s t).Listed :=
  ⟨Nat.le_refl 0, List.forall_mem_nil _, nofun⟩

theorem act (h : d.Listed) (a : Action) : (d.act a).Listed := by
  rcases d.act_cases a with ⟨-, hquiet⟩ | ⟨c, hcall, hturned⟩
  · refine ⟨?_, ?_, fun hbottom => ?_⟩
    · rw [hquiet.transcript]
      exact hquiet.selected h.selected
    · rw [hquiet.transcript]
      exact h.shows
    · obtain ⟨hold, hselected⟩ := hquiet.toBottom hbottom
      rw [hselected, hquiet.transcript, h.newest hold]
  · obtain ⟨elapsed, isPath, htranscript⟩ := hturned.transcript
    rw [← List.concat_eq_append] at htranscript
    refine ⟨?_, ?_, fun _ => ?_⟩
    · rw [htranscript, hturned.selected, List.length_concat, Nat.add_sub_cancel]
    · rw [htranscript, List.concat_eq_append, List.forall_mem_append, List.forall_mem_singleton]
      exact ⟨h.shows, shows_of_call? hcall elapsed isPath⟩
    · rw [htranscript, hturned.selected, List.length_concat]

theorem acts (h : d.Listed) (actions : List Action) : (d.acts actions).Listed := by
  induction actions generalizing d with
  | nil => exact h
  | cons a actions ih => exact ih (h.act a)

/-- The selected entry exists. -/
theorem exists_selected (h : d.Listed) (hne : d.transcript ≠ []) :
    ∃ e, d.transcript[d.selected]? = some e := by
  have hselected : d.selected < d.transcript.length :=
    Nat.lt_of_le_pred (List.length_pos_iff.2 hne) h.selected
  exact ⟨_, List.getElem?_eq_getElem hselected⟩

end Listed

/-! ### Where blocks begin -/

variable {blocks : List (List Row)} {block : List Row} {i width : Nat}

theorem foldl_starts (blocks : List (List Row)) :
    blocks.foldl (fun (starts, next) block => (starts ++ [next], next + block.length))
      (([] : List Nat), 0) = (startsOf blocks, blocks.flatten.length) := by
  induction blocks using List.reverseRecOn with
  | nil => rfl
  | append_singleton blocks block ih =>
    rw [startsOf, List.foldl_concat, ih, List.flatten_concat, List.length_append]

theorem startsOf_concat (blocks : List (List Row)) (block : List Row) :
    startsOf (blocks ++ [block]) = startsOf blocks ++ [blocks.flatten.length] := by
  rw [startsOf, List.foldl_concat, foldl_starts]

/-- Each block begins behind the rows of the blocks before it. -/
theorem startsOf_eq_map (blocks : List (List Row)) :
    startsOf blocks = (List.range blocks.length).map fun i => (blocks.take i).flatten.length := by
  induction blocks using List.reverseRecOn with
  | nil => rfl
  | append_singleton blocks block ih =>
    rw [startsOf_concat, ih, List.length_append, List.length_singleton, List.range_succ,
      List.map_append, List.map_singleton, List.take_left]
    congr 1
    refine List.map_congr_left fun i hi => ?_
    rw [List.take_append_of_le_length (List.mem_range.1 hi).le]

theorem length_startsOf (blocks : List (List Row)) : (startsOf blocks).length = blocks.length := by
  rw [startsOf_eq_map, List.length_map, List.length_range]

theorem getElem?_startsOf (h : i < blocks.length) :
    (startsOf blocks)[i]? = some (blocks.take i).flatten.length := by
  rw [startsOf_eq_map, List.getElem?_map, List.getElem?_range h]
  rfl

/-- The rows from the beginning of a block are its rows first. -/
theorem drop_flatten_eq (h : blocks[i]? = some block) :
    blocks.flatten.drop (blocks.take i).flatten.length =
      block ++ (blocks.drop (i + 1)).flatten := by
  obtain ⟨hi, rfl⟩ := List.getElem?_eq_some_iff.1 h
  calc blocks.flatten.drop (blocks.take i).flatten.length
      = ((blocks.take i).flatten ++ (blocks.drop i).flatten).drop
          (blocks.take i).flatten.length := by
        rw [← List.flatten_append, List.take_append_drop]
    _ = (blocks.drop i).flatten := List.drop_left
    _ = blocks[i] ++ (blocks.drop (i + 1)).flatten := by
        rw [List.drop_eq_getElem_cons hi, List.flatten_cons]

theorem length_flatten_take_succ (h : blocks[i]? = some block) :
    (blocks.take (i + 1)).flatten.length = (blocks.take i).flatten.length + block.length := by
  rw [List.take_add_one, h, Option.toList_some, List.flatten_concat, List.length_append]

/-! ### The entries of the list -/

/-- The rows of an entry that stands at a place of the transcript, for a list of some width. -/
def rowsAt (d : Desk) (width i : Nat) (e : Entry) : List Row :=
  e.rows (i = d.selected) (width - listMargin)

theorem length_entryRows (d : Desk) (width : Nat) :
    (d.entryRows width).length = d.transcript.length := by
  rw [entryRows, List.length_map, List.length_zipIdx]

/-- The block of an entry has its rows, and the rule if it is not the last. -/
theorem getElem?_entryRows {e : Entry} (he : d.transcript[i]? = some e) (width : Nat) :
    (d.entryRows width)[i]? = some
      (d.rowsAt width i e ++ if i + 1 < d.transcript.length then [rule width] else []) := by
  rw [entryRows, List.getElem?_map, List.getElem?_zipIdx, he, Option.map_some, Option.map_some,
    Nat.zero_add]
  congr 1
  show (if i + 1 < d.transcript.length then d.rowsAt width i e ++ [rule width]
    else d.rowsAt width i e) = _
  split_ifs
  · rfl
  · exact (List.append_nil _).symm

/-- Drawing the main view notes where the entries begin. -/
theorem placed_prepareMain (d : Desk) (hsize : size.isTooSmall = false) :
    (d.prepareMain size).Placed size.transcriptArea.inner := by
  cases d.upToDate_prepareMain size with
  | tooSmall hsmall _ => cases hsize.symm.trans hsmall
  | drawn _ _ _ htranscript _ => exact htranscript

/-- **Where the entries begin.** When the main view of a desk with entries is drawn, the beginning
of each entry is noted, that of the first as 0. Each entry has rows, and the list has them from the
beginning of the entry on; then come the rule and the next entry. The selected entry is one of them,
and its beginning is what the row that stands out is found by. -/
theorem starts_prepareMain {s : Session} {t : Tree} {actions : List Action}
    (hsize : size.isTooSmall = false) (hne : ((Desk.new s t).acts actions).transcript ≠ []) :
    let d := ((Desk.new s t).acts actions).prepareMain size
    let width := size.transcriptArea.inner.width
    d.starts.length = d.transcript.length ∧
    d.starts.head? = some 0 ∧
    (∀ i e, d.transcript[i]? = some e → ∃ start, d.starts[i]? = some start ∧
      d.rowsAt width i e ≠ [] ∧
      d.rowsAt width i e <+: (d.entryRows width).flatten.drop start ∧
      (i + 1 < d.transcript.length →
        d.starts[i + 1]? = some (start + (d.rowsAt width i e).length + 1))) ∧
    ∃ e start, d.transcript[d.selected]? = some e ∧ d.starts[d.selected]? = some start ∧
      (d.entryRows width).flatten[start]? = (d.rowsAt width d.selected e).head? := by
  intro d width
  have hlisted : d.Listed := ((Listed.new s t).acts actions).act (.drawMain size)
  have hne' : d.transcript ≠ [] := by
    have hquiet := quiet_prepareMain ((Desk.new s t).acts actions) size
    rwa [← hquiet.transcript] at hne
  obtain ⟨hstarts, -⟩ := placed_prepareMain ((Desk.new s t).acts actions) hsize hne'
  replace hstarts : d.starts = startsOf (d.entryRows width) := hstarts
  have hat (i : Nat) (hi : i < d.transcript.length) :
      d.starts[i]? = some ((d.entryRows width).take i).flatten.length := by
    rw [hstarts, getElem?_startsOf ((d.length_entryRows width).symm ▸ hi)]
  have hentry (i : Nat) (e : Entry) (he : d.transcript[i]? = some e) :
      ∃ start, d.starts[i]? = some start ∧ d.rowsAt width i e ≠ [] ∧
        d.rowsAt width i e <+: (d.entryRows width).flatten.drop start ∧
        (i + 1 < d.transcript.length →
          d.starts[i + 1]? = some (start + (d.rowsAt width i e).length + 1)) := by
    have hblock := d.getElem?_entryRows he width
    refine ⟨_, hat i (List.getElem?_eq_some_iff.1 he).1, ?_, ?_, fun hnext => ?_⟩
    · exact (hlisted.shows e (List.mem_of_getElem? he)).rows_ne_nil _ _
    · rw [drop_flatten_eq hblock, List.append_assoc]
      exact List.prefix_append _ _
    · rw [if_pos hnext] at hblock
      rw [hat _ hnext, length_flatten_take_succ hblock, List.length_append, Nat.add_assoc]
      rfl
  refine ⟨?_, ?_, hentry, ?_⟩
  · rw [hstarts, length_startsOf, length_entryRows]
  · rw [List.head?_eq_getElem?, hat 0 (List.length_pos_iff.2 hne')]
    rfl
  · obtain ⟨e, he⟩ := hlisted.exists_selected hne'
    obtain ⟨start, hstart, hrows, ⟨rest, hprefix⟩, -⟩ := hentry d.selected e he
    refine ⟨e, start, he, hstart, ?_⟩
    rw [← Nat.add_zero start, ← List.getElem?_drop, ← hprefix, ← List.head?_eq_getElem?,
      List.head?_append_of_ne_nil _ hrows]

/-- The question for a path is answered with an empty line, and the entry of the answer, which has
nothing but the reply, is selected. -/
theorem starts_prepareMain_empty_answer :
    let s := Session.new ⟨[], ⟨"h.log"⟩⟩ ⟨"/"⟩
    let actions : List Action := [.press (.char 'c') {} 0, .press .enter {} 0, .press .enter {} 0,
      .press (.char '1') {} 0, .press .enter {} 0, .press .up {} 0]
    let d := ((Desk.new s (.empty [])).acts actions).prepareMain Size.minimum
    let width := Size.minimum.transcriptArea.inner.width
    (d.transcript.map Entry.line = [['c'], [], ['1']] ∧ d.selected = 1 ∧ d.starts = [0, 2, 4]) ∧
      ∃ e start, d.transcript[d.selected]? = some e ∧ d.starts[d.selected]? = some start ∧
        (d.entryRows width).flatten[start]? = (d.rowsAt width d.selected e).head? := by
  intro s actions d width
  have hsize : Size.minimum.isTooSmall = false := by decide
  have hne : ((Desk.new s (.empty [])).acts actions).transcript ≠ [] := by decide +kernel
  have hnoted : d.transcript.map Entry.line = [['c'], [], ['1']] ∧ d.selected = 1 ∧
      d.starts = [0, 2, 4] := by decide +kernel
  exact ⟨hnoted, (starts_prepareMain hsize hne).2.2.2⟩

end Desk

end Reckoner
