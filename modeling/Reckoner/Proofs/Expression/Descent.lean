import Mathlib.Data.List.Chain
import Mathlib.Data.List.TakeWhile
import Mathlib.Logic.Relation
import Reckoner.Proofs.Expression.Grammar

/-!
# Reading by descent

The rules of the grammar, read from the left, are themselves a way to read a text: one routine for
each category, which calls the routines of the parts. `parse` reads a text in this way, with no more
calls one inside the other than it is allowed. What a routine knows of the text is a position in
it; parentheses, signs and exponents are counted where they are entered and given back where they
are left. The descent keeps a *trail* of all the places it passes, so that statements about what
happens on the way, also on the way to a fault, are statements about a result.

Here is what the descent does with its place, whatever the text is. A routine that succeeds gives
back all the nesting it has entered (`restores_call`). The position never decreases and stays in the
text, the nesting exceeds the limit by one level at most, and that is a fault (`within_parse`). How
many calls are open at once follows from `callsNeeded`: within one level of nesting a routine calls
only routines of smaller categories, and every level brings new ones.
-/

namespace Reckoner.Expression

/-! ### Places and trails -/

/-- Where a descent is. -/
structure Place where
  /-- How many characters lie behind. -/
  position : Nat
  /-- How many parentheses, signs and exponents are open. -/
  depth : Nat
  /-- How many calls of routines are open. -/
  active : Nat
deriving DecidableEq, Repr

namespace Place

/-- The place at another position. -/
def movedTo (p : Place) (n : Nat) : Place := { p with position := n }

/-- The place one level of nesting further in. -/
def inner (p : Place) : Place := { p with depth := p.depth + 1 }

/-- The place one level of nesting further out. -/
def outer (p : Place) : Place := { p with depth := p.depth - 1 }

/-- The place with one more open call. -/
def opened (p : Place) : Place := { p with active := p.active + 1 }

/-- The place with one open call less. -/
def closed (p : Place) : Place := { p with active := p.active - 1 }

/-- One place is within another if none of its counts is greater. -/
instance : LE Place where
  le p q := p.position ≤ q.position ∧ p.depth ≤ q.depth ∧ p.active ≤ q.active

end Place

/-- Where a descent is and the places it has passed. -/
structure Trail where
  now : Place
  /-- The places before, the latest first. -/
  earlier : List Place
deriving DecidableEq, Repr

namespace Trail

/-- All places of the trail, the latest first. -/
def places (t : Trail) : List Place := t.now :: t.earlier

/-- The trail one place further. -/
def become (t : Trail) (p : Place) : Trail := ⟨p, t.places⟩

/-- The trail in front of a text. -/
def start : Trail := ⟨⟨0, 0, 0⟩, []⟩

end Trail

/-! ### Descents -/

/-- Why a descent ends early. -/
inductive Halt where
  /-- Something is wrong with the expression. -/
  | fault (f : Fault)
  /-- No further call is allowed. -/
  | calls
  /-- A repetition takes more turns than the text has characters. -/
  | turns
  /-- More nesting is given back than was entered. -/
  | underflow
deriving DecidableEq, Repr

/-- A part of a descent: it goes on from a trail and either has a result or halts. -/
abbrev Descent : Type → Type := ExceptT Halt (StateM Trail)

namespace Descent

variable {α β : Type}

/-- Where the descent is. -/
def here : Descent Place := return (← get).now

/-- Go on to another place. -/
def go (f : Place → Place) : Descent Unit := modify fun t => t.become (f t.now)

/-- Halt because of what stands here. -/
def fail (cause : Cause) : Descent α := do
  throw (.fault ⟨cause, (← here).position⟩)

/-- Enter one level of nesting. -/
def descend : Descent Unit := do
  go Place.inner
  if nestingLimit < (← here).depth then fail .tooDeep

/-- Give one level of nesting back. -/
def ascend : Descent Unit := do
  if (← here).depth = 0 then throw .underflow else go Place.outer

/-- A part of the descent one level further in. -/
def nested (m : Descent α) : Descent α := do
  descend
  let x ← m
  ascend
  return x

/-- A part of the descent as a call of its own, which is open until the part ends. -/
def called (m : Descent α) : Descent α := fun t =>
  let r := m (t.become t.now.opened)
  (r.1, r.2.become r.2.now.closed)

/-! ### Taking characters -/

variable (text : List Char)

/-- The text from here on. -/
def ahead : Descent (List Char) := return text.drop (← here).position

/-- The character here, if the text has not ended. -/
def current : Descent (Option Char) := return (← ahead text).head?

/-- Move over some characters. -/
def advance (k : Nat) : Descent Unit := go fun p => p.movedTo (p.position + k)

/-- Move over the blanks here. -/
def skipBlanks : Descent Unit := do
  advance ((← ahead text).takeWhile Text.isBlank).length

end Descent

/-- Whether a text begins with the characters of the token; a single star is not followed by
another. -/
def Lexeme.begins (l : Lexeme) (cs : List Char) : Bool :=
  l.chars.isPrefixOf cs && (l != .star || cs[1]? != some '*')

/-- The operators that may stand between the parts of a category, with their tokens. -/
def Category.operators : Category → List (Lexeme × Operator)
  | expression => [(.plus, .plus), (.minus, .minus)]
  | term => [(.star, .times), (.slash, .dividedBy), (.percent, .modulo)]
  | factor => [(.caret, .power), (.doubleStar, .power)]
  | signed | atom => []

/-- The signs with their tokens. -/
def signs : List (Lexeme × Sign) := [(.plus, .plus), (.minus, .minus)]

namespace Descent

variable {α β : Type} (text : List Char)

/-- Take the token, if it stands behind the blanks here. -/
def eat (l : Lexeme) : Descent Bool := do
  skipBlanks text
  if l.begins (← ahead text) then
    advance l.chars.length
    return true
  else return false

/-- Take the first of the tokens that stands here and return what belongs to it. -/
def eatFirst : List (Lexeme × β) → Descent (Option β)
  | [] => return none
  | (l, b) :: choices => do
    if ← eat text l then return some b else eatFirst choices

/-! ### The routines -/

variable (I : Interpretation α)

/-- Take the run of digits and points that stands here. -/
def number : Descent α := do
  let start := (← here).position
  let numerals := (← ahead text).takeWhile isNumeral
  advance numerals.length
  match Literal.ofChars? numerals with
  | some l => return I.literal l
  | none => throw (.fault ⟨.malformed numerals, start⟩)

/-- Parts joined by operators, grouped from the left, behind the operand `x`. -/
def chain (operators : List (Lexeme × Operator)) (part : Descent α) : Nat → α → Descent α
  | 0, _ => throw .turns
  | turns + 1, x => do
    match ← eatFirst text operators with
    | some op => chain operators part turns (I.apply op x (← part))
    | none => return x

/-- The routine of a category, in terms of calls. -/
def routine (call : Category → Descent α) : Category → Descent α
  | .expression => do
    chain text I Category.expression.operators (call .term) (text.length + 1) (← call .term)
  | .term => do
    chain text I Category.term.operators (call .factor) (text.length + 1) (← call .factor)
  | .factor => do
    let base ← call .signed
    match ← eatFirst text Category.factor.operators with
    | some op => return I.apply op base (← nested (call .factor))
    | none => return base
  | .signed => do
    match ← eatFirst text signs with
    | some s => return I.sign s (← nested (call .signed))
    | none => call .atom
  | .atom => do
    if ← eat text .opening then
      let inner ← nested (call .expression)
      if ← eat text .closing then return I.group inner
      else fail (.unclosed (← current text))
    else
      match ← current text with
      | some c => if isNumeral c then number text I else fail (.unexpected c)
      | none => fail .incomplete

/-- A call of a routine, with no more than the given number of calls one inside the other. -/
def call : Nat → Category → Descent α
  | 0, _ => throw .calls
  | calls + 1, c => called (routine text I (call calls) c)

/-- Read a whole text. -/
def parse (calls : Nat) : Descent α := do
  let x ← call text I calls .expression
  skipBlanks text
  match ← current text with
  | some c => fail (.unexpected c)
  | none => return x

end Descent

/-! ### How the parts run -/

namespace Descent

variable {α β : Type} {text : List Char} {m : Descent α} {f : α → Descent β} {t u : Trail} {x : α}
  {e : Halt}

theorem bind_of_ok (h : m t = (.ok x, u)) : (m >>= f) t = f x u := by
  show StateT.bind m (ExceptT.bindCont f) t = f x u
  rw [StateT.bind, h]
  rfl

theorem bind_of_error (h : m t = (.error e, u)) : (m >>= f) t = (.error e, u) := by
  show StateT.bind m (ExceptT.bindCont f) t = (.error e, u)
  rw [StateT.bind, h]
  rfl

theorem skipBlanks_apply (text : List Char) (t : Trail) :
    skipBlanks text t = (.ok (), t.become (t.now.movedTo
      (t.now.position + ((text.drop t.now.position).takeWhile Text.isBlank).length))) :=
  rfl

theorem eat_of_begins {l : Lexeme} (hskip : skipBlanks text t = (.ok (), u))
    (h : l.begins (text.drop u.now.position) = true) :
    eat text l t = (.ok true, u.become (u.now.movedTo (u.now.position + l.chars.length))) := by
  rw [eat, bind_of_ok hskip]
  show (if l.begins (text.drop u.now.position) = true then _ else _ : Descent Bool) u = _
  rw [if_pos h]
  rfl

theorem eat_of_not_begins {l : Lexeme} (hskip : skipBlanks text t = (.ok (), u))
    (h : l.begins (text.drop u.now.position) = false) : eat text l t = (.ok false, u) := by
  rw [eat, bind_of_ok hskip]
  show (if l.begins (text.drop u.now.position) = true then _ else _ : Descent Bool) u = _
  rw [h]
  rfl

theorem number_of_some {I : Interpretation α} {cs : List Char} {l : Literal}
    (hcs : (text.drop t.now.position).takeWhile isNumeral = cs)
    (h : Literal.ofChars? cs = some l) :
    number text I t =
      (.ok (I.literal l), t.become (t.now.movedTo (t.now.position + cs.length))) := by
  subst hcs
  show (match Literal.ofChars? ((text.drop t.now.position).takeWhile isNumeral) with
    | some l => pure (I.literal l)
    | none => _ : Descent α) _ = _
  rw [h]
  rfl

theorem number_of_none {I : Interpretation α} {cs : List Char}
    (hcs : (text.drop t.now.position).takeWhile isNumeral = cs)
    (h : Literal.ofChars? cs = none) :
    number text I t = (.error (.fault ⟨.malformed cs, t.now.position⟩),
      t.become (t.now.movedTo (t.now.position + cs.length))) := by
  subst hcs
  show (match Literal.ofChars? ((text.drop t.now.position).takeWhile isNumeral) with
    | some l => pure (I.literal l)
    | none => _ : Descent α) _ = _
  rw [h]
  rfl

theorem nested_of_tooDeep (h : nestingLimit ≤ t.now.depth) :
    nested m t = (.error (.fault ⟨.tooDeep, t.now.position⟩), t.become t.now.inner) := by
  have hd : descend t = (.error (.fault ⟨.tooDeep, t.now.position⟩), t.become t.now.inner) := by
    show (if nestingLimit < t.now.depth + 1 then fail .tooDeep else pure () : Descent Unit)
      (t.become t.now.inner) = _
    rw [if_pos (Nat.lt_succ_of_le h)]
    rfl
  exact bind_of_error hd

theorem descend_of_lt (h : t.now.depth < nestingLimit) :
    descend t = (.ok (), t.become t.now.inner) := by
  show (if nestingLimit < t.now.depth + 1 then fail .tooDeep else pure () : Descent Unit)
    (t.become t.now.inner) = _
  rw [if_neg (Nat.not_lt_of_le h)]
  rfl

theorem nested_of_ok (h : t.now.depth < nestingLimit) (hm : m (t.become t.now.inner) = (.ok x, u))
    (hu : u.now.depth ≠ 0) : nested m t = (.ok x, u.become u.now.outer) := by
  have ha : ascend u = (.ok (), u.become u.now.outer) := by
    show (if u.now.depth = 0 then throw .underflow else go Place.outer : Descent Unit) u = _
    rw [if_neg hu]
    rfl
  rw [nested, bind_of_ok (descend_of_lt h), bind_of_ok hm, bind_of_ok ha]
  rfl

theorem nested_of_error (h : t.now.depth < nestingLimit)
    (hm : m (t.become t.now.inner) = (.error e, u)) : nested m t = (.error e, u) := by
  rw [nested, bind_of_ok (descend_of_lt h), bind_of_error hm]

end Descent

/-! ### Trails within a limit -/

namespace Trail

variable {top : Place} {t u : Trail}

/-- The second trail is one place further than the first: not behind it and within the limit. -/
def Step (top : Place) (t u : Trail) : Prop :=
  ∃ p, u = t.become p ∧ t.now.position ≤ p.position ∧ p ≤ top

/-- The places of the trail are within the limit, and none is behind the one before. -/
structure Within (top : Place) (t : Trail) : Prop where
  le : ∀ p ∈ t.places, p ≤ top
  forward : t.places.IsChain fun p q => q.position ≤ p.position

theorem within_start (top : Place) : start.Within top where
  le p hp := by
    obtain rfl := List.mem_singleton.mp hp
    exact ⟨Nat.zero_le _, Nat.zero_le _, Nat.zero_le _⟩
  forward := List.isChain_singleton _

theorem Within.now_le (h : t.Within top) : t.now ≤ top := h.le _ List.mem_cons_self

theorem Within.step (h : t.Within top) (hs : Step top t u) : u.Within top := by
  obtain ⟨p, rfl, hforward, hp⟩ := hs
  exact ⟨List.forall_mem_cons.mpr ⟨hp, h.le⟩, List.isChain_cons_cons.mpr ⟨hforward, h.forward⟩⟩

theorem Within.leads (h : t.Within top) (hs : Relation.ReflTransGen (Step top) t u) :
    u.Within top := by
  induction hs with
  | refl => exact h
  | tail _ hlast ih => exact ih.step hlast

theorem Step.position_le (h : Step top t u) : t.now.position ≤ u.now.position := by
  obtain ⟨p, rfl, hforward, -⟩ := h
  exact hforward

theorem Step.now_le (h : Step top t u) : u.now ≤ top := by
  obtain ⟨p, rfl, -, hp⟩ := h
  exact hp

theorem position_le_of_leads (h : Relation.ReflTransGen (Step top) t u) :
    t.now.position ≤ u.now.position := by
  induction h with
  | refl => exact Nat.le_refl _
  | tail _ hlast ih => exact Nat.le_trans ih hlast.position_le

theorem now_le_of_leads (h : Relation.ReflTransGen (Step top) t u) (ht : t.now ≤ top) :
    u.now ≤ top := by
  cases h with
  | refl => exact ht
  | tail _ hlast => exact hlast.now_le

end Trail

namespace Descent

open Relation (ReflTransGen)

variable {α β : Type} {text : List Char} {I : Interpretation α} {top : Place} {d a : Nat}
  {m : Descent α} {f : α → Descent β}

/-- Where a part ends that began at the trail `t`, at the nesting `d` and with `a` open calls:
within the limit, with the same calls open, and at the same nesting if it has a result. -/
structure Ends (top : Place) (d a : Nat) (t : Trail) (r : Except Halt α × Trail) : Prop where
  leads : ReflTransGen (Trail.Step top) t r.2
  active : r.2.now.active = a
  depth : ∀ x, r.1 = .ok x → r.2.now.depth = d

/-- From every place at the nesting `d` with `a` open calls, the part ends as it should. -/
def Keeps (top : Place) (d a : Nat) (m : Descent α) : Prop :=
  ∀ t : Trail, t.now ≤ top → t.now.depth = d → t.now.active = a → Ends top d a t (m t)

theorem Ends.now_le {t : Trail} {r : Except Halt α × Trail} (h : Ends top d a t r)
    (ht : t.now ≤ top) : r.2.now ≤ top :=
  Trail.now_le_of_leads h.leads ht

/-- What ends where it began. -/
theorem keeps_of_still (h : ∀ t, (m t).2 = t) : Keeps top d a m := by
  intro t _ hd ha
  refine ⟨?_, ?_, fun _ _ => ?_⟩
  · rw [h]
  · rw [h]
    exact ha
  · rw [h]
    exact hd

theorem Keeps.bind (hm : Keeps top d a m) (hf : ∀ x, Keeps top d a (f x)) :
    Keeps top d a (m >>= f) := by
  intro t ht hd ha
  have h := hm t ht hd ha
  rcases hr : m t with ⟨r, u⟩
  rw [hr] at h
  cases r with
  | error e =>
    rw [bind_of_error hr]
    exact ⟨h.leads, h.active, fun x hx => nomatch hx⟩
  | ok x =>
    rw [bind_of_ok hr]
    have h' := hf x u (h.now_le ht) (h.depth x rfl) h.active
    exact ⟨h.leads.trans h'.leads, h'.active, h'.depth⟩

/-- Moving over characters of the text. -/
theorem step_movedTo {t : Trail} {k : Nat} (htop : text.length ≤ top.position) (ht : t.now ≤ top)
    (hk : k ≤ (text.drop t.now.position).length) :
    Trail.Step top t (t.become (t.now.movedTo (t.now.position + k))) := by
  rw [List.length_drop] at hk
  have hpos : t.now.position + k ≤ top.position := by
    have := ht.1
    omega
  exact ⟨_, rfl, Nat.le_add_right _ _, hpos, ht.2⟩

theorem keeps_skipBlanks (htop : text.length ≤ top.position) : Keeps top d a (skipBlanks text) := by
  intro t ht hd ha
  rw [skipBlanks_apply]
  exact ⟨.single (step_movedTo htop ht (List.takeWhile_prefix _).length_le), ha, fun _ _ => hd⟩

theorem length_le_of_begins {l : Lexeme} {cs : List Char} (h : l.begins cs = true) :
    l.chars.length ≤ cs.length := by
  rw [Lexeme.begins, Bool.and_eq_true] at h
  exact (List.isPrefixOf_iff_prefix.mp h.1).length_le

theorem keeps_eat (htop : text.length ≤ top.position) (l : Lexeme) :
    Keeps top d a (eat text l) := by
  intro t ht hd ha
  have hskip := keeps_skipBlanks (d := d) (a := a) htop t ht hd ha
  have hu := hskip.now_le ht
  have hok := skipBlanks_apply text t
  generalize t.become _ = u at hok
  rw [hok] at hskip hu
  cases hl : l.begins (text.drop u.now.position) with
  | false =>
    rw [eat_of_not_begins hok hl]
    exact ⟨hskip.leads, hskip.active, fun _ _ => hskip.depth _ rfl⟩
  | true =>
    rw [eat_of_begins hok hl]
    exact ⟨hskip.leads.tail (step_movedTo htop hu (length_le_of_begins hl)), hskip.active,
      fun _ _ => hskip.depth _ rfl⟩

theorem keeps_eatFirst (htop : text.length ≤ top.position) (choices : List (Lexeme × β)) :
    Keeps top d a (eatFirst text choices) := by
  induction choices with
  | nil => exact keeps_of_still fun _ => rfl
  | cons choice choices ih =>
    refine (keeps_eat htop choice.1).bind fun taken => ?_
    cases taken with
    | true => exact keeps_of_still fun _ => rfl
    | false => exact ih

theorem keeps_number (htop : text.length ≤ top.position) : Keeps top d a (number text I) := by
  intro t ht hd ha
  have hstep := step_movedTo htop ht (List.takeWhile_prefix isNumeral).length_le
  cases hl : Literal.ofChars? ((text.drop t.now.position).takeWhile isNumeral) with
  | none =>
    rw [number_of_none rfl hl]
    exact ⟨.single hstep, ha, fun _ _ => hd⟩
  | some l =>
    rw [number_of_some rfl hl]
    exact ⟨.single hstep, ha, fun _ _ => hd⟩

/-- What is entered is given back. -/
theorem keeps_nested (hd : d < top.depth) (hm : d < nestingLimit → Keeps top (d + 1) a m) :
    Keeps top d a (nested m) := by
  rintro t ht rfl rfl
  have henter : Trail.Step top t (t.become t.now.inner) :=
    ⟨_, rfl, Nat.le_refl _, ht.1, hd, ht.2.2⟩
  by_cases hlt : t.now.depth < nestingLimit
  · have h := hm hlt (t.become t.now.inner) henter.now_le rfl rfl
    have hu := h.now_le henter.now_le
    rcases hr : m (t.become t.now.inner) with ⟨r, u⟩
    rw [hr] at h hu
    cases r with
    | error e =>
      rw [nested_of_error hlt hr]
      exact ⟨h.leads.head henter, h.active, fun x hx => nomatch hx⟩
    | ok x =>
      have hdepth : u.now.depth = t.now.depth + 1 := h.depth x rfl
      rw [nested_of_ok hlt hr (hdepth ▸ Nat.succ_ne_zero _)]
      have hleave : Trail.Step top u (u.become u.now.outer) :=
        ⟨_, rfl, Nat.le_refl _, hu.1, Nat.le_trans (Nat.sub_le _ _) hu.2.1, hu.2.2⟩
      exact ⟨(h.leads.head henter).tail hleave, h.active, fun _ _ => congrArg Nat.pred hdepth⟩
  · rw [nested_of_tooDeep (Nat.not_lt.mp hlt)]
    exact ⟨.single henter, rfl, fun x hx => nomatch hx⟩

/-- A call is closed again, whatever comes of it. -/
theorem keeps_called (ha : a < top.active) (hm : Keeps top d (a + 1) m) :
    Keeps top d a (called m) := by
  rintro t ht htd rfl
  have hopen : Trail.Step top t (t.become t.now.opened) :=
    ⟨_, rfl, Nat.le_refl _, ht.1, ht.2.1, ha⟩
  have h := hm (t.become t.now.opened) hopen.now_le htd rfl
  have hu := h.now_le hopen.now_le
  have hclose : Trail.Step top (m (t.become t.now.opened)).2 (called m t).2 :=
    ⟨_, rfl, Nat.le_refl _, hu.1, hu.2.1, Nat.le_trans (Nat.sub_le _ _) hu.2.2⟩
  exact ⟨(h.leads.head hopen).tail hclose, congrArg Nat.pred h.active, h.depth⟩

theorem keeps_chain (htop : text.length ≤ top.position) {operators : List (Lexeme × Operator)}
    (hm : Keeps top d a m) (turns : Nat) (x : α) :
    Keeps top d a (chain text I operators m turns x) := by
  induction turns generalizing x with
  | zero => exact keeps_of_still fun _ => rfl
  | succ turns ih =>
    refine (keeps_eatFirst htop operators).bind fun next => ?_
    cases next with
    | none => exact keeps_of_still fun _ => rfl
    | some op => exact hm.bind fun y => ih _

/-- A routine keeps the nesting if the routines of smaller categories do, and all routines one
level further in. -/
theorem keeps_routine {call : Category → Descent α} {c : Category}
    (htop : text.length ≤ top.position) (hd : d < top.depth)
    (hsmaller : ∀ c', c'.level < c.level → Keeps top d a (call c'))
    (hdeeper : d < nestingLimit → ∀ c', Keeps top (d + 1) a (call c')) :
    Keeps top d a (routine text I call c) := by
  have hnested : ∀ c', Keeps top d a (nested (call c')) := fun c' =>
    keeps_nested hd fun hlt => hdeeper hlt c'
  cases c with
  | expression =>
    have hterm := hsmaller .term (by decide)
    exact hterm.bind fun x => keeps_chain htop hterm _ x
  | term =>
    have hfactor := hsmaller .factor (by decide)
    exact hfactor.bind fun x => keeps_chain htop hfactor _ x
  | factor =>
    refine (hsmaller .signed (by decide)).bind fun base =>
      (keeps_eatFirst htop _).bind fun next => ?_
    cases next with
    | none => exact keeps_of_still fun _ => rfl
    | some op => exact (hnested .factor).bind fun _ => keeps_of_still fun _ => rfl
  | signed =>
    refine (keeps_eatFirst htop signs).bind fun next => ?_
    cases next with
    | none => exact hsmaller .atom (by decide)
    | some s => exact (hnested .signed).bind fun _ => keeps_of_still fun _ => rfl
  | atom =>
    refine (keeps_eat htop .opening).bind fun opened => ?_
    cases opened with
    | true =>
      refine (hnested .expression).bind fun inner => (keeps_eat htop .closing).bind fun closed => ?_
      cases closed <;> exact keeps_of_still fun _ => rfl
    | false =>
      refine Keeps.bind (keeps_of_still fun _ => rfl) fun next => ?_
      cases next with
      | none => exact keeps_of_still fun _ => rfl
      | some ch =>
        show Keeps top d a (if isNumeral ch = true then _ else _)
        split
        · exact keeps_number htop
        · exact keeps_of_still fun _ => rfl

end Descent

/-! ### Calls one inside the other -/

/-- How many calls may be open inside a call for the category at the nesting `d`, itself
included: down to the smallest category, and as many as there are categories for every level of
nesting that is left. -/
def Category.callsNeeded (c : Category) (d : Nat) : Nat := 5 * (nestingLimit - d) + c.level + 1

theorem Category.callsNeeded_lt {c c' : Category} {d : Nat} (h : c'.level < c.level) :
    c'.callsNeeded d < c.callsNeeded d := by
  unfold callsNeeded
  omega

theorem Category.callsNeeded_deeper {d : Nat} (h : d < nestingLimit) (c c' : Category) :
    c'.callsNeeded (d + 1) < c.callsNeeded d := by
  have hc : c'.level ≤ 4 := by cases c' <;> decide
  unfold callsNeeded
  omega

namespace Descent

variable {α : Type} {text : List Char} {I : Interpretation α} {top : Place} {d a : Nat}

/-- **A call gives back what it enters.** It ends at the nesting and with the open calls it began
with, and on the way nothing exceeds a limit that leaves room for one level beyond what is
allowed, and for the calls that are needed or those that are allowed. -/
theorem keeps_call (htop : text.length ≤ top.position) (hlimit : nestingLimit < top.depth)
    {calls : Nat} {c : Category} (hd : d < top.depth)
    (ha : a + min calls (c.callsNeeded d) ≤ top.active) :
    Keeps top d a (call text I calls c) := by
  induction calls generalizing c d a with
  | zero => exact keeps_of_still fun _ => rfl
  | succ calls ih =>
    have hpos : 0 < c.callsNeeded d := Nat.succ_pos _
    -- a callee that needs fewer calls has room for them once this call is open
    have hcallee : ∀ c' d', d' < top.depth → c'.callsNeeded d' < c.callsNeeded d →
        Keeps top d' (a + 1) (call text I calls c') :=
      fun c' d' hd' hlt => ih hd' (by omega)
    refine keeps_called (by omega) (keeps_routine htop hd ?_ ?_)
    · exact fun c' hc' => hcallee c' d hd (Category.callsNeeded_lt hc')
    · exact fun hlt c' => hcallee c' (d + 1) (by omega) (Category.callsNeeded_deeper hlt c c')

/-- From every place, a call that has a result ends with the nesting and the open calls that it
began with, and not behind its beginning. -/
theorem restores_call {calls : Nat} {c : Category} {t u : Trail} {x : α}
    (h : call text I calls c t = (.ok x, u)) :
    u.now.depth = t.now.depth ∧ u.now.active = t.now.active ∧
      t.now.position ≤ u.now.position := by
  -- a limit that this call cannot reach
  let top : Place := ⟨max t.now.position text.length, max t.now.depth nestingLimit + 1,
    t.now.active + calls⟩
  have ht : t.now ≤ top :=
    ⟨Nat.le_max_left _ _, Nat.le_succ_of_le (Nat.le_max_left _ _), Nat.le_add_right _ _⟩
  have hends : Ends top t.now.depth t.now.active t (call text I calls c t) :=
    keeps_call (Nat.le_max_right _ _) (Nat.lt_succ_of_le (Nat.le_max_right _ _))
      (Nat.lt_succ_of_le (Nat.le_max_left _ _)) (Nat.add_le_add_left (Nat.min_le_left _ _) _)
      t ht rfl rfl
  rw [h] at hends
  exact ⟨hends.depth x rfl, hends.active, Trail.position_le_of_leads hends.leads⟩

/-- **The descent stays within its bounds**, however many calls it is allowed: on every text the
position never decreases and stays in the text, the nesting exceeds the limit by one level at most,
and there are never more calls open than a text with that nesting needs. -/
theorem within_parse (I : Interpretation α) (text : List Char) (calls : Nat) :
    (parse text I calls .start).2.Within
      ⟨text.length, nestingLimit + 1, Category.expression.callsNeeded 0⟩ := by
  set top : Place := ⟨text.length, nestingLimit + 1, Category.expression.callsNeeded 0⟩
  have hstart := Trail.within_start top
  have hkeeps : Keeps top 0 0 (parse text I calls) := by
    refine (keeps_call (Nat.le_refl _) (Nat.lt_succ_self _) (Nat.succ_pos _) ?_).bind fun x =>
      (keeps_skipBlanks (Nat.le_refl _)).bind fun _ =>
        Keeps.bind (keeps_of_still fun _ => rfl) fun next => ?_
    · rw [Nat.zero_add]
      exact Nat.min_le_right _ _
    · cases next <;> exact keeps_of_still fun _ => rfl
  exact hstart.leads (hkeeps .start hstart.now_le rfl rfl).leads

end Descent

end Reckoner.Expression
