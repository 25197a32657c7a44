import Mathlib.Data.List.Chain
import Mathlib.Data.List.Forall2
import Reckoner.Proofs.Desk.Leaving

/-!
# Scrolling the help down

While the help is shown it is scrolled down by keys and by the wheel. How many rows are out of view
is counted, and the count only grows, up to the greatest there is (`watchFrom_scrollsDown`). But the
screen counts in 16 bits, so the rows that a picture leaves out are the count modulo 65536. Hence
the help goes back to its beginning when the count comes to a multiple of 65536, and only then
(`helpOffset_isChain_iff`).
-/

namespace Reckoner.Desk

variable {d : Desk} {rounds : List Round} {rows : List Nat} {n m : Nat}

/-! ### Signals -/

/-- A signal that scrolls the help down by so many rows, or by none if nothing happens. -/
inductive Signal.ScrollsDown : Signal → Nat → Prop
  | line (held : Modifiers) : ScrollsDown (.pressed .down held) 1
  | page (held : Modifiers) : ScrollsDown (.pressed .pageDown held) 10
  | wheel : ScrollsDown (.wheel .down) wheelStep
  | idle : ScrollsDown .idle 0

theorem Signal.ScrollsDown.le {signal : Signal} (h : signal.ScrollsDown n) : n ≤ 10 := by
  cases h <;> decide

theorem le_ten_of_scrollsDown (h : List.Forall₂ (fun r n => r.signal.ScrollsDown n) rounds rows) :
    ∀ n ∈ rows, n ≤ 10 := by
  induction h with
  | nil => simp
  | cons hr _ ih => exact List.forall_mem_cons.2 ⟨hr.le, ih⟩

/-- The desk with so many rows of the help out of view. -/
def withHelpAt (d : Desk) (n : Nat) : Desk := { d with helpScroll := n }

theorem scrollDown_le (n m : Nat) : scrollDown n m ≤ scrollLimit := Nat.min_le_right _ _

theorem le_scrollDown (h : n ≤ scrollLimit) (m : Nat) : n ≤ scrollDown n m :=
  Nat.le_min.2 ⟨Nat.le_add_right n m, h⟩

/-- While the help is shown, such a signal changes nothing but how far it is scrolled. -/
theorem heed_of_scrollsDown (hshown : d.helpShown = true) (hscroll : d.helpScroll ≤ scrollLimit)
    {signal : Signal} (h : signal.ScrollsDown n) (elapsed : Nat) :
    d.heed elapsed signal = d.withHelpAt (scrollDown d.helpScroll n) := by
  cases h with
  | line | page => exact if_pos hshown
  | wheel => exact if_pos hshown
  | idle =>
    have hstay : scrollDown d.helpScroll 0 = d.helpScroll := Nat.min_eq_left hscroll
    rw [hstay]
    rfl

/-! ### Runs -/

/-- The pictures of the help on screens of the given sizes, at the given counts. -/
def helpPictures (d : Desk) (sizes : List Size) (counts : List Nat) : List Picture :=
  List.zipWith (fun size n => (d.withHelpAt n).drawHelp size) sizes counts

theorem draw_of_helpShown (hshown : d.helpShown = true) (size : Size) :
    d.draw size = (d, d.drawHelp size) := by
  rw [draw, prepare, if_pos hshown, picture, if_pos hshown]

/-- Scrolled down all the time, the help is drawn at one count after the other. -/
theorem watchFrom_scrollsDown (hshown : d.helpShown = true) (hleaving : d.leaving = false)
    (hscroll : d.helpScroll ≤ scrollLimit)
    (hdown : List.Forall₂ (fun r n => r.signal.ScrollsDown n) rounds rows) (last : Size)
    (drawn : List Picture) :
    watchFrom last drawn d rounds =
      ⟨(d.helpPictures (rounds.map Round.size ++ [last])
          (rows.scanl scrollDown d.helpScroll)).reverse ++ drawn,
        d.withHelpAt (rows.foldl scrollDown d.helpScroll), [], some noMoreSignals⟩ := by
  induction hdown generalizing d drawn with
  | nil =>
    have hdraw : d.draw last = (d, d.drawHelp last) := draw_of_helpShown hshown last
    rw [watchFrom, leaving_prepare, hleaving, if_neg Bool.false_ne_true]
    show (⟨(d.draw last).2 :: drawn, (d.draw last).1, [], some noMoreSignals⟩ : Ending) = _
    rw [hdraw]
    rfl
  | @cons r n rounds rows hr _ ih =>
    have hsignal (message : String) : r.signal ≠ .failure message := by
      intro hfailure
      rw [hfailure] at hr
      cases hr
    have hround : d.acts r.actions = d.withHelpAt (scrollDown d.helpScroll n) := by
      rw [acts_actions, prepare, if_pos hshown, heed_of_scrollsDown hshown hscroll hr]
    rw [watchFrom_cons hleaving hsignal, hround, ih (by exact hshown) (by exact hleaving)
      (scrollDown_le _ _), draw_of_helpShown hshown, List.scanl_cons, List.foldl_cons]
    simp only [helpPictures, withHelpAt, List.map_cons, List.cons_append, List.zipWith_cons_cons,
      List.reverse_cons, List.append_assoc, List.nil_append]

/-! ### The counts -/

theorem foldl_scrollDown (hn : n ≤ scrollLimit) (rows : List Nat) :
    rows.foldl scrollDown n = min (rows.foldl (· + ·) n) scrollLimit := by
  have key (rows : List Nat) (n : Nat) :
      rows.foldl scrollDown (min n scrollLimit) = min (rows.foldl (· + ·) n) scrollLimit := by
    induction rows generalizing n with
    | nil => rfl
    | cons m rows ih =>
      have hstep : scrollDown (min n scrollLimit) m = min (n + m) scrollLimit := by
        rw [scrollDown]
        omega
      rw [List.foldl_cons, List.foldl_cons, hstep, ih]
  rw [← key, Nat.min_eq_left hn]

theorem le_foldl_scrollDown (hn : n ≤ scrollLimit) (rows : List Nat) :
    n ≤ rows.foldl scrollDown n := by
  induction rows generalizing n with
  | nil => exact Nat.le_refl n
  | cons m rows ih => exact (le_scrollDown hn m).trans (ih (scrollDown_le n m))

/-- Growing by small steps, the counts never become smaller in 16 bits exactly if they pass no
multiple of 65536. -/
theorem isChain_mod_iff (hn : n ≤ scrollLimit) (hrows : ∀ m ∈ rows, m < 0x10000) :
    ((rows.scanl scrollDown n).map (· % 0x10000)).IsChain (· ≤ ·) ↔
      rows.foldl scrollDown n / 0x10000 = n / 0x10000 := by
  induction rows generalizing n with
  | nil => exact iff_of_true (List.isChain_singleton _) rfl
  | cons m rows ih =>
    have hm : m < 0x10000 := hrows m List.mem_cons_self
    have hlimit : scrollDown n m ≤ scrollLimit := scrollDown_le n m
    have hle : n ≤ scrollDown n m := le_scrollDown hn m
    have hlt : scrollDown n m < n + 0x10000 := Nat.lt_of_le_of_lt (Nat.min_le_left _ _) (by omega)
    have hend := le_foldl_scrollDown hlimit rows
    have htail := ih hlimit fun k hk => hrows k (List.mem_cons_of_mem m hk)
    have hhead : ((rows.scanl scrollDown (scrollDown n m)).map (· % 0x10000)).head? =
        some (scrollDown n m % 0x10000) := by
      rw [List.head?_map, List.head?_scanl]
      rfl
    rw [List.scanl_cons, List.map_cons, List.isChain_cons, htail, hhead, List.foldl_cons]
    -- a count that is larger by less than 65536 is smaller in 16 bits only behind a multiple
    have hstep : n % 0x10000 ≤ scrollDown n m % 0x10000 ↔
        scrollDown n m / 0x10000 = n / 0x10000 := by omega
    constructor
    · rintro ⟨hmod, hquotient⟩
      rw [hquotient, hstep.1 (hmod _ rfl)]
    · intro hquotient
      have hdiv : scrollDown n m / 0x10000 = n / 0x10000 := by omega
      refine ⟨fun k hk => ?_, hquotient.trans hdiv.symm⟩
      obtain rfl := Option.some.inj hk
      exact hstep.2 hdiv

/-- Behind a multiple of 65536 the help is at its beginning, but for the rows that the last step has
gone beyond. -/
theorem isChain_fall (hn : n ≤ scrollLimit) (hrows : ∀ m ∈ rows, m ≤ 10) :
    (rows.scanl scrollDown n).IsChain fun k k' =>
      k' % 0x10000 < k % 0x10000 → k' % 0x10000 < 10 := by
  induction rows generalizing n with
  | nil => exact List.isChain_singleton _
  | cons m rows ih =>
    have hm : m ≤ 10 := hrows m List.mem_cons_self
    have hle : n ≤ scrollDown n m := le_scrollDown hn m
    have hlt : scrollDown n m ≤ n + m := Nat.min_le_left _ _
    have htail := ih (scrollDown_le n m) fun k hk => hrows k (List.mem_cons_of_mem m hk)
    rw [List.scanl_cons, List.isChain_cons, List.head?_scanl]
    refine ⟨fun k hk => ?_, htail⟩
    obtain rfl := Option.some.inj hk
    intro hfall
    omega

/-! ### The rows that are left out -/

/-- **Scrolling the help down.** While the help is shown, a run that only scrolls it down draws it
at one count of rows after the other, each with the rows of the count modulo 65536 left out. This
number never decreases from one picture to the next exactly if the count passes no multiple of
65536; where it does decrease, fewer than ten rows are left out. -/
theorem helpOffset_isChain_iff (hshown : d.helpShown = true) (hleaving : d.leaving = false)
    (hscroll : d.helpScroll ≤ scrollLimit)
    (hdown : List.Forall₂ (fun r n => r.signal.ScrollsDown n) rounds rows) (last : Size) :
    let counts := rows.scanl scrollDown d.helpScroll
    let offsets := counts.map fun n => (d.withHelpAt n).helpOffset
    (watchFrom last [] d rounds).latestFirst.reverse =
        d.helpPictures (rounds.map Round.size ++ [last]) counts ∧
      (offsets.IsChain (· ≤ ·) ↔
        min (rows.foldl (· + ·) d.helpScroll) scrollLimit / 0x10000 = d.helpScroll / 0x10000) ∧
      offsets.IsChain fun n n' => n' < n → n' < 10 := by
  intro counts offsets
  have hten := le_ten_of_scrollsDown hdown
  have hoffsets : offsets = counts.map (· % 0x10000) := rfl
  refine ⟨?_, ?_, ?_⟩
  · rw [watchFrom_scrollsDown hshown hleaving hscroll hdown, List.append_nil, List.reverse_reverse]
  · rw [hoffsets, isChain_mod_iff hscroll fun m hm => Nat.lt_of_le_of_lt (hten m hm) (by decide),
      foldl_scrollDown hscroll]
  · rw [hoffsets, List.isChain_map]
    exact isChain_fall hscroll hten

/-- A page down at 65530 rows: only the first four rows of the help are left out after it. -/
theorem helpOffset_isChain_iff_page :
    let d : Desk := { Desk.new (Session.new ⟨[], ⟨"h.log"⟩⟩ ⟨"/"⟩) (.empty []) with
      helpShown := true, helpScroll := 65530 }
    let rounds : List Round := [⟨⟨80, 24⟩, 0, .pressed .pageDown {}⟩, ⟨⟨50, 10⟩, 0, .idle⟩,
      ⟨⟨50, 10⟩, 0, .wheel .down⟩]
    let counts := [65530, 65540, 65540, 65543]
    (watchFrom ⟨50, 10⟩ [] d rounds).latestFirst.reverse =
        d.helpPictures [⟨80, 24⟩, ⟨50, 10⟩, ⟨50, 10⟩, ⟨50, 10⟩] counts ∧
      counts.map (fun n => (d.withHelpAt n).helpOffset) = [65530, 4, 4, 7] ∧
      ¬ (counts.map fun n => (d.withHelpAt n).helpOffset).IsChain (· ≤ ·) := by
  intro d rounds counts
  have hdown : List.Forall₂ (fun r n => r.signal.ScrollsDown n) rounds [10, 0, 3] :=
    .cons (.page {}) (.cons .idle (.cons .wheel .nil))
  have hcounts : [10, 0, 3].scanl scrollDown d.helpScroll = counts := by decide
  obtain ⟨hpictures, hchain, -⟩ :=
    helpOffset_isChain_iff (d := d) rfl rfl (by decide) hdown ⟨50, 10⟩
  rw [hcounts] at hpictures hchain
  exact ⟨hpictures, by decide, fun h => absurd (hchain.1 h) (by decide)⟩

theorem foldl_add_replicate (n m k : Nat) :
    (List.replicate k m).foldl (· + ·) n = n + k * m := by
  induction k generalizing n with
  | zero => rw [Nat.zero_mul]; rfl
  | succ k ih =>
    rw [List.replicate_succ, List.foldl_cons, ih, Nat.add_assoc, Nat.succ_mul, Nat.add_comm m]

/-- The help is shown and scrolled down by pages. After 6552 pages it is drawn without its first
65520 rows; two pages later only the first four are left out. -/
theorem not_isChain_helpOffset :
    let d := (Desk.new (Session.new ⟨[], ⟨"h.log"⟩⟩ ⟨"/"⟩) (.empty [])).press (.function 1) {} 0
    let run (n : Nat) := watchFrom Size.minimum [] d
      (List.replicate n ⟨Size.minimum, 0, .pressed .pageDown {}⟩)
    (run 6554).desk = ((run 6552).desk.press .pageDown {} 0).press .pageDown {} 0 ∧
      (run 6552).desk.helpShown = true ∧
      (run 6552).desk.helpOffset = 65520 ∧ (run 6554).desk.helpOffset = 4 ∧
      ¬ (run 6552).desk.helpOffset ≤ (run 6554).desk.helpOffset := by
  intro d run
  have hdesk (n : Nat) (hn : n * 10 ≤ scrollLimit) : (run n).desk = d.withHelpAt (n * 10) := by
    have hdown (n : Nat) : List.Forall₂ (fun r m => r.signal.ScrollsDown m)
        (List.replicate n (⟨Size.minimum, 0, .pressed .pageDown {}⟩ : Round))
        (List.replicate n 10) := by
      induction n with
      | zero => exact .nil
      | succ n ih => exact .cons (.page {}) ih
    have hrun := watchFrom_scrollsDown (d := d) rfl rfl (Nat.zero_le _) (hdown n) Size.minimum []
    have hcount : (List.replicate n 10).foldl scrollDown 0 = n * 10 := by
      rw [foldl_scrollDown (Nat.zero_le _), foldl_add_replicate, Nat.zero_add, Nat.min_eq_left hn]
    show (watchFrom Size.minimum [] d _).desk = _
    rw [hrun]
    exact congrArg d.withHelpAt hcount
  rw [hdesk 6552 (by decide), hdesk 6554 (by decide)]
  exact ⟨rfl, rfl, by decide, by decide, by decide⟩

end Reckoner.Desk
