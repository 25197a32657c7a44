import Reckoner.Proofs.Desk.Listing

/-!
# Whether the newest entry is seen to its end

A call adds an entry, selects it, and asks for the end of the transcript to be shown. Drawing the
main view then scrolls so far that the last row is at the bottom of the list. But the window over
the list is also moved to show the selected row, which is the first row of the new entry. Both
demands can be met only if the entry is no longer than the list is high (`showing_end`). If it is
longer, the window is moved back to the beginning of the entry, and its end is not seen, however the
transcript is scrolled (`stop_showing_le`).
-/

namespace Reckoner

open Files Screen

/-! ### Windows -/

namespace Screen.Window

variable {count height offset row : Nat}

/-- The window does not reach further than its height from the selected row. -/
theorem stop_showing_le (hheight : 0 < height) :
    (showing count height offset row).stop ≤ row + height := by
  rw [showing, atOffset, reveal]
  dsimp only
  split_ifs <;> dsimp only <;> omega

/-- The window at the end of the list, moved to show the selected row: it stays where it is if no
more rows than it has begin with that row, and otherwise begins with it. -/
theorem showing_end (hrow : row < count) (hheight : 0 < height) :
    showing count height (count - height) row =
      if count - row ≤ height then ⟨count - height, count⟩ else ⟨row, row + height⟩ := by
  have hlast : min row (count - 1) = row := by omega
  have hend : atOffset count height (count - height) = ⟨count - height, count⟩ := by
    have hstart : min (count - height) (count - 1) = count - height := by omega
    have hstop : min (count - height + height) count = count := by omega
    rw [atOffset, hstart, hstop]
  rw [showing, hlast, hend, reveal, if_neg (Nat.not_le.2 hrow)]
  have hbefore : row < count - height ↔ ¬ count - row ≤ height := by omega
  by_cases hfits : count - row ≤ height
  · rw [if_pos hfits, if_neg (fun h => hbefore.1 h hfits)]
  · have hstop : min count (row + height) = row + height := by omega
    rw [if_neg hfits, if_pos (hbefore.2 hfits), hstop]

theorem view_to_end {α : Type} (start : Nat) (rows : List α) :
    (⟨start, rows.length⟩ : Window).view rows = rows.drop start := by
  rw [view, ← List.length_drop, List.take_length]

end Screen.Window

namespace Desk

variable {d : Desk} {list : Area} {size : Size}

/-- How many rows the transcript has in a list. -/
def rowCount (d : Desk) (list : Area) : Nat := (d.entryRows list.width).flatten.length

/-- The window over these rows. -/
def window (d : Desk) (list : Area) : Window :=
  .showing (d.rowCount list) list.height d.historyScroll ((d.starts[d.selected]?).getD 0)

theorem shownRows_eq (d : Desk) (list : Area) :
    d.shownRows list = (d.window list).view (d.entryRows list.width).flatten := rfl

theorem entryRows_congr {d' : Desk} (htranscript : d'.transcript = d.transcript)
    (hselected : d'.selected = d.selected) (width : Nat) :
    d'.entryRows width = d.entryRows width := by
  simp only [entryRows, htranscript, hselected]

theorem Size.height_list_pos (hsize : size.isTooSmall = false) :
    0 < size.transcriptArea.inner.height := by
  have hheight : 10 ≤ size.height := (isTooSmall_eq_false_iff.1 hsize).2
  show 0 < size.height - 4 - 2
  omega

/-! ### The newest entry -/

/-- The desk has been drawn with its end shown and the last entry selected: it is scrolled to its
end, and the selected row is the first of those that the last entry has. The list ends with them. -/
structure AtEnd (d : Desk) (list : Area) (newest : List Row) : Prop where
  scroll : d.historyScroll = d.rowCount list - list.height
  exists_start : ∃ start, d.starts[d.selected]? = some start ∧
    (d.entryRows list.width).flatten.drop start = newest
  ne_nil : newest ≠ []

namespace AtEnd

variable {newest : List Row}

theorem suffix (h : d.AtEnd list newest) : newest <:+ (d.entryRows list.width).flatten := by
  obtain ⟨start, -, rfl⟩ := h.exists_start
  exact List.drop_suffix start _

/-- The window begins at the end of the list or with the newest entry. -/
theorem window_eq (h : d.AtEnd list newest) (hheight : 0 < list.height) :
    d.window list = if newest.length ≤ list.height then
        ⟨d.rowCount list - list.height, d.rowCount list⟩
      else ⟨d.rowCount list - newest.length, d.rowCount list - newest.length + list.height⟩ := by
  obtain ⟨start, hstart, hdrop⟩ := h.exists_start
  have hlength : newest.length = d.rowCount list - start := by rw [← hdrop, List.length_drop]; rfl
  have hpos : 0 < newest.length := List.length_pos_iff.2 h.ne_nil
  have hrow : d.rowCount list - newest.length = start := by omega
  rw [window, hstart, Option.getD_some, h.scroll, Window.showing_end (by omega) hheight, ← hlength,
    hrow]

/-- The window reaches the end of the list exactly if the newest entry fits into it. -/
theorem stop_eq_iff (h : d.AtEnd list newest) (hheight : 0 < list.height) :
    (d.window list).stop = d.rowCount list ↔ newest.length ≤ list.height := by
  have hle : newest.length ≤ d.rowCount list := h.suffix.length_le
  have hwindow := h.window_eq hheight
  split_ifs at hwindow with hfits
  · rw [hwindow]
    exact iff_of_true rfl hfits
  · rw [hwindow]
    dsimp only
    omega

/-- An entry that fits is shown completely, at the end of the list. -/
theorem suffix_shownRows (h : d.AtEnd list newest) (hheight : 0 < list.height)
    (hfits : newest.length ≤ list.height) : newest <:+ d.shownRows list := by
  have hwindow := h.window_eq hheight
  rw [if_pos hfits] at hwindow
  rw [shownRows_eq, hwindow, rowCount, Window.view_to_end]
  refine List.suffix_of_suffix_length_le h.suffix (List.drop_suffix _ _) ?_
  have hle := h.suffix.length_le
  rw [List.length_drop]
  omega

/-- Of a longer entry the first rows are shown, and nothing else. -/
theorem shownRows_eq_take (h : d.AtEnd list newest) (hheight : 0 < list.height)
    (hlong : list.height < newest.length) : d.shownRows list = newest.take list.height := by
  have hwindow := h.window_eq hheight
  rw [if_neg (Nat.not_le.2 hlong)] at hwindow
  rw [shownRows_eq, hwindow, Window.view, Nat.add_sub_cancel_left, rowCount,
    ← List.suffix_iff_eq_drop.1 h.suffix]

/-- Then the end of the list is not seen, however it is scrolled. -/
theorem stop_lt (h : d.AtEnd list newest) (hheight : 0 < list.height)
    (hlong : list.height < newest.length) (offset : Nat) :
    (({ d with historyScroll := offset } : Desk).window list).stop < d.rowCount list := by
  obtain ⟨start, hstart, rfl⟩ := h.exists_start
  rw [List.length_drop] at hlong
  have hstop : (({ d with historyScroll := offset } : Desk).window list).stop ≤
      (d.starts[d.selected]?).getD 0 + list.height := Window.stop_showing_le hheight
  rw [hstart, Option.getD_some] at hstop
  rw [rowCount]
  omega

end AtEnd

theorem historyScroll_placeTranscript (hbottom : d.toBottom = true) (hne : d.transcript ≠ []) :
    (d.placeTranscript list).historyScroll = d.rowCount list - list.height := by
  rw [placeTranscript, if_neg hne]
  exact if_pos hbottom

theorem historyScroll_prepareMain (hsize : size.isTooSmall = false) (hbottom : d.toBottom = true)
    (hne : d.transcript ≠ []) : (d.prepareMain size).historyScroll =
      d.rowCount size.transcriptArea.inner - size.transcriptArea.inner.height := by
  rw [prepareMain_eq hsize]
  exact historyScroll_placeTranscript (d := ({ d with tooSmall := false } : Desk).adjustScroll
    size.visibleInput) hbottom hne

/-- Drawing a desk whose end is to be shown puts it there. -/
theorem Listed.atEnd_prepareMain (h : d.Listed) (hsize : size.isTooSmall = false)
    (hbottom : d.toBottom = true) :
    let list := size.transcriptArea.inner
    ∃ e, (d.prepareMain size).transcript.getLast? = some e ∧
      (d.prepareMain size).AtEnd list (e.rows true (list.width - listMargin)) := by
  intro list
  have hlast := h.newest hbottom
  have hne : d.transcript ≠ [] := List.length_pos_iff.1 (by omega)
  obtain ⟨e, he⟩ := h.exists_selected hne
  obtain ⟨_, _, _, _, _, _, hmain⟩ := exists_prepareMain_eq d size
  have htranscript : (d.prepareMain size).transcript = d.transcript := by rw [hmain]
  have hselected : (d.prepareMain size).selected = d.selected := by rw [hmain]
  obtain ⟨hstarts, -⟩ := placed_prepareMain d hsize (htranscript.symm ▸ hne)
  have hscroll : (d.prepareMain size).historyScroll =
      (d.prepareMain size).rowCount list - list.height := by
    rw [rowCount, entryRows_congr htranscript hselected]
    exact historyScroll_prepareMain hsize hbottom hne
  -- from here on only the drawn desk is looked at
  generalize d.prepareMain size = d' at *
  have hblock : (d'.entryRows list.width)[d'.selected]? =
      some (e.rows true (list.width - listMargin)) := by
    rw [← htranscript, ← hselected] at he
    rw [d'.getElem?_entryRows he, if_neg (by rw [htranscript, hselected]; omega), List.append_nil,
      rowsAt, decide_eq_true rfl]
  have hblocks : (d'.entryRows list.width).drop (d'.selected + 1) = [] := by
    rw [List.drop_eq_nil_iff, length_entryRows, htranscript, hselected, hlast]
  refine ⟨e, ?_, hscroll, ⟨((d'.entryRows list.width).take d'.selected).flatten.length, ?_, ?_⟩,
    (h.shows e (List.mem_of_getElem? he)).rows_ne_nil _ _⟩
  · rw [List.getLast?_eq_getElem?, htranscript, ← hlast, Nat.add_sub_cancel, he]
  · rw [hstarts, getElem?_startsOf (List.getElem?_eq_some_iff.1 hblock).1]
  · rw [drop_flatten_eq hblock, hblocks, List.flatten_nil, List.append_nil]

/-- **Whether the newest entry is seen to its end.** When the main view is drawn and the end of the
transcript is to be shown, its last row is in the window exactly if the newest entry has no more
rows than the list. Then the whole entry is shown. Otherwise nothing but its first rows is, and
scrolling the transcript does not bring its end into the window. -/
theorem stop_window_eq_iff {s : Session} {t : Tree} {actions : List Action}
    (hsize : size.isTooSmall = false)
    (hbottom : ((Desk.new s t).acts actions).toBottom = true) :
    let d := ((Desk.new s t).acts actions).prepareMain size
    let list := size.transcriptArea.inner
    ∃ e, d.transcript.getLast? = some e ∧
      let newest := e.rows true (list.width - listMargin)
      newest ≠ [] ∧ newest <:+ (d.entryRows list.width).flatten ∧
      ((d.window list).stop = d.rowCount list ↔ newest.length ≤ list.height) ∧
      (newest.length ≤ list.height → newest <:+ d.shownRows list) ∧
      (list.height < newest.length → d.shownRows list = newest.take list.height ∧
        ∀ offset, (({ d with historyScroll := offset } : Desk).window list).stop <
          d.rowCount list) := by
  intro d list
  have hheight : 0 < list.height := Size.height_list_pos hsize
  obtain ⟨e, he, hend⟩ := ((Listed.new s t).acts actions).atEnd_prepareMain hsize hbottom
  exact ⟨e, he, hend.ne_nil, hend.suffix, hend.stop_eq_iff hheight, hend.suffix_shownRows hheight,
    fun hlong => ⟨hend.shownRows_eq_take hheight hlong, hend.stop_lt hheight hlong⟩⟩

/-- On the smallest screen the list has four rows: one for the command, and one for each of three
entries of the history. -/
theorem stop_window_eq_iff_short_history :
    let s := Session.new ⟨["1 = 1", "2 = 2", "3 = 3"], ⟨"h.log"⟩⟩ ⟨"/"⟩
    let actions : List Action := [.press (.char 'h') {} 0, .press .enter {} 0]
    let d := ((Desk.new s (.empty [])).acts actions).prepareMain Size.minimum
    let list := Size.minimum.transcriptArea.inner
    (list.height = 4 ∧ d.window list = ⟨0, 4⟩ ∧ d.rowCount list = 4) ∧
      ∃ e, d.transcript.getLast? = some e ∧
        ((d.window list).stop = d.rowCount list ↔
          (e.rows true (list.width - listMargin)).length ≤ list.height) := by
  intro s actions d list
  have hsize : Size.minimum.isTooSmall = false := by decide
  have hbottom : ((Desk.new s (.empty [])).acts actions).toBottom = true := by decide +kernel
  obtain ⟨e, he, -, -, hiff, -⟩ := stop_window_eq_iff hsize hbottom
  exact ⟨by decide +kernel, e, he, hiff⟩

/-- Of four entries the last one is not seen. -/
theorem not_stop_window_eq :
    let s := Session.new ⟨["1 = 1", "2 = 2", "3 = 3", "4 = 4"], ⟨"h.log"⟩⟩ ⟨"/"⟩
    let actions : List Action := [.press (.char 'h') {} 0, .press .enter {} 0]
    let d := (Desk.new s (.empty [])).acts actions
    let drawn := d.prepareMain Size.minimum
    let list := Size.minimum.transcriptArea.inner
    (d.toBottom = true ∧ d.transcript ≠ []) ∧ (drawn.window list).stop ≠ drawn.rowCount list ∧
      ∃ last ∈ (drawn.entryRows list.width).flatten.getLast?, last ∉ drawn.shownRows list := by
  decide +kernel

end Desk

end Reckoner
