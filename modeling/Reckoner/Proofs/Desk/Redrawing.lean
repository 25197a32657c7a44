import Reckoner.Desk.Watch
import Reckoner.Proofs.Desk.Scrolling

/-!
# Drawing again

Drawing changes the desk: it scrolls the line and the transcript, notes where the entries begin and
how large the list is, and remembers whether the screen was too small. All of this depends only on
the desk and the size, and once it is done there is nothing more to do: a desk that is `UpToDate`
with a screen is left as it is by drawing it there. So drawing again gives the same desk and the
same picture (`draw_draw`), and a desk at which nothing happens shows one picture all the time
(`watch_idle`). Pictures have symbols and a cursor but no styles; these are in the rows of the desk
and are the same because the desk is.
-/

namespace Reckoner.Desk

open Files Screen

variable {d : Desk} {list : Area} {size : Size}

/-! ### The transcript -/

/-- The notes about the transcript are those for an area, and its end has been shown, if it is not
empty. -/
def Placed (d : Desk) (list : Area) : Prop :=
  d.transcript ≠ [] → d.starts = startsOf (d.entryRows list.width) ∧ d.toBottom = false

theorem placed_placeTranscript (d : Desk) (list : Area) : (d.placeTranscript list).Placed list := by
  by_cases hempty : d.transcript = []
  · rw [placeTranscript, if_pos hempty]
    exact fun hne => absurd hempty hne
  · rw [placeTranscript, if_neg hempty]
    exact fun _ => ⟨rfl, rfl⟩

/-- A transcript that is placed stays where it is. -/
theorem Placed.placeTranscript_eq (h : d.Placed list) : d.placeTranscript list = d := by
  by_cases hempty : d.transcript = []
  · rw [placeTranscript, if_pos hempty]
  · obtain ⟨hstarts, hbottom⟩ := h hempty
    calc d.placeTranscript list
        = { d with
            starts := startsOf (d.entryRows list.width)
            historyScroll := if d.toBottom then (d.entryRows list.width).flatten.length -
              list.height else d.historyScroll
            toBottom := false } := if_neg hempty
      -- each field that is written gets back what it was
      _ = d := by rw [← hstarts, hbottom, if_neg Bool.false_ne_true, ← hbottom]

/-! ### The main view -/

/-- The desk is as drawing the main view on a screen leaves it. -/
inductive UpToDate (d : Desk) (size : Size) : Prop where
  | tooSmall (hsize : size.isTooSmall = true) (hnoted : d.tooSmall = true)
  | drawn (hsize : size.isTooSmall = false) (hnoted : d.tooSmall = false)
      (hline : d.Scrolled size.visibleInput)
      (htranscript : d.Placed size.transcriptArea.inner)
      (hheight : d.listHeight = size.transcriptArea.height)

/-- Drawing the main view brings the desk up to date. -/
theorem upToDate_prepareMain (d : Desk) (size : Size) : (d.prepareMain size).UpToDate size := by
  cases hsize : size.isTooSmall with
  | true =>
    refine .tooSmall hsize ?_
    rw [prepareMain, if_pos hsize]
  | false =>
    obtain ⟨starts, offset, bottom, hmain⟩ := exists_prepareMain_drawn d hsize
    have hplaced : (d.prepareMain size).Placed size.transcriptArea.inner := by
      rw [prepareMain_eq hsize]
      exact placed_placeTranscript _ _
    exact .drawn hsize (by rw [hmain]) (scrolled_prepareMain hsize) hplaced (by rw [hmain])

/-- A desk that is up to date is left as it is. -/
theorem UpToDate.prepareMain_eq (h : d.UpToDate size) : d.prepareMain size = d := by
  cases h with
  | tooSmall hsize hnoted =>
    rw [prepareMain, if_pos hsize, ← hnoted]
  | drawn hsize hnoted hline htranscript hheight =>
    have hflag : ({ d with tooSmall := false } : Desk) = d := by rw [← hnoted]
    rw [Desk.prepareMain_eq hsize, hflag, hline.adjustScroll_eq, htranscript.placeTranscript_eq,
      ← hheight]

theorem prepareMain_prepareMain (d : Desk) (size : Size) :
    (d.prepareMain size).prepareMain size = d.prepareMain size :=
  (upToDate_prepareMain d size).prepareMain_eq

/-! ### Every view -/

/-- Drawing does not settle whether the desk is to be left. -/
theorem leaving_prepare (d : Desk) (size : Size) : (d.prepare size).leaving = d.leaving := by
  obtain ⟨_, _, _, _, _, _, hmain⟩ := exists_prepareMain_eq d size
  rw [prepare, hmain]
  split_ifs <;> rfl

theorem prepare_prepare (d : Desk) (size : Size) :
    (d.prepare size).prepare size = d.prepare size := by
  cases hhelp : d.helpShown with
  | true =>
    have hprepare : d.prepare size = d := if_pos hhelp
    rw [hprepare, hprepare]
  | false =>
    have hhelp' : (d.prepareMain size).helpShown = false := by rw [helpShown_prepareMain, hhelp]
    rw [prepare_eq hhelp, prepare_eq hhelp', prepareMain_prepareMain]

theorem draw_prepare (d : Desk) (size : Size) : (d.prepare size).draw size = d.draw size := by
  rw [draw, draw, prepare_prepare]

/-- **Drawing again.** On the same screen a desk that has been drawn is left as it is by drawing it
again, whether the help or the main view is shown, and the picture, symbols and cursor, is the same.
So is a desk of which only the main view or only the line has been brought up to date. A picture has
no styles; what they are drawn from is the desk, all of which stays. -/
theorem draw_draw (d : Desk) (size : Size) :
    (d.draw size).1.draw size = d.draw size ∧
    (d.prepareMain size).prepareMain size = d.prepareMain size ∧
    ∀ visible, 1 ≤ visible →
      (d.adjustScroll visible).adjustScroll visible = d.adjustScroll visible :=
  ⟨draw_prepare d size, prepareMain_prepareMain d size, fun _ hvisible =>
    (scrolled_adjustScroll hvisible d).adjustScroll_eq⟩

/-- Two of five characters have been deleted while the window was at the end of the line. The first
time the window is moved back to the beginning, and then it stays. -/
theorem draw_draw_after_deleting :
    let s := Session.new ⟨[], ⟨"h.log"⟩⟩ ⟨"/"⟩
    let actions : List Action := [.press (.char '1') {} 0, .press (.char '+') {} 0,
      .press (.char '2') {} 0, .press (.char '/') {} 0, .press (.char '3') {} 0,
      .adjustScroll 3, .press .backspace {} 0, .press .backspace {} 0]
    let d := (Desk.new s (.empty [])).acts actions
    d.inputScroll = 2 ∧ (d.adjustScroll 3).inputScroll = 0 ∧
      (d.adjustScroll 3).adjustScroll 3 = d.adjustScroll 3 := by
  intro s actions d
  have hscroll : d.inputScroll = 2 ∧ (d.adjustScroll 3).inputScroll = 0 := by decide +kernel
  obtain ⟨-, -, hline⟩ := draw_draw d Size.minimum
  exact ⟨hscroll.1, hscroll.2, hline 3 (by decide)⟩

/-! ### Waiting -/

/-- While nothing happens the pictures that are added are all the same. -/
theorem watchFrom_idle (hleaving : d.leaving = false) (size : Size) (elapsed n : Nat)
    (drawn : List Picture) :
    watchFrom size drawn d (List.replicate n ⟨size, elapsed, .idle⟩) =
      ⟨List.replicate (n + 1) (d.draw size).2 ++ drawn, (d.draw size).1, [],
        some noMoreSignals⟩ := by
  induction n generalizing d drawn with
  | zero =>
    rw [List.replicate_zero, watchFrom, leaving_prepare, hleaving, if_neg Bool.false_ne_true]
    rfl
  | succ n ih =>
    have hleaving' : (d.prepare size).leaving = false := (leaving_prepare d size).trans hleaving
    calc watchFrom size drawn d (List.replicate (n + 1) ⟨size, elapsed, .idle⟩)
        = watchFrom size ((d.draw size).2 :: drawn) (d.prepare size)
            (List.replicate n ⟨size, elapsed, .idle⟩) :=
          if_neg (by rw [hleaving']; exact Bool.false_ne_true)
      _ = ⟨List.replicate (n + 1) (d.draw size).2 ++ (d.draw size).2 :: drawn, (d.draw size).1, [],
            some noMoreSignals⟩ := by rw [ih hleaving', draw_prepare]
      _ = _ := by rw [List.replicate_succ' (n := n + 1), List.append_assoc, List.singleton_append]

/-- While nothing happens, a desk that is not to be left is drawn again and again, and every picture
is the first one. -/
theorem watch_idle (hleaving : d.leaving = false) (size : Size) (elapsed n : Nat) :
    d.watch size elapsed (List.replicate n .idle) =
      ⟨List.replicate (n + 1) (d.draw size).2, (d.draw size).1, [], some noMoreSignals⟩ := by
  rw [watch, List.map_replicate, watchFrom_idle hleaving, List.append_nil]

end Reckoner.Desk
