-- What an operation refuses. A move out of the padded area, a new line below
-- it and markup that cannot be read are refused before anything is done. So
-- they are refused exactly when they should be, and a refusal leaves the
-- workspace as it was. Where a number leaves the words before it can be
-- compared, nothing is refused: the operation ends there.
import TerminalPanes.Proofs.WorkspaceReach
import TerminalPanes.Text.Tables

namespace TerminalPanes

/-! ## Refusing -/

/-- In a state with `P` the action fails with an error of the kind `R` exactly
when that error is due, and then the state is as before. -/
structure Refuses {ε σ α : Type} (P : σ → Prop) (R : ε → Prop) (due : σ → ε → Prop)
    (m : EStateM ε σ α) : Prop where
  refused : ∀ {s e}, P s → due s e → m s = .error e s
  only : ∀ {s e u}, P s → R e → m s = .error e u → due s e
  keeps : ∀ {s a u}, P s → m s = .ok a u → P u

namespace Refuses

variable {ε σ α β : Type} {P : σ → Prop} {R : ε → Prop} {due : σ → ε → Prop}

/-- What is done after a check does not refuse anything. -/
theorem bind {m : EStateM ε σ α} {f : α → EStateM ε σ β} (hm : Refuses P R due m)
    (hf : ∀ a, Upholds P (fun e => ¬ R e) (f a)) : Refuses P R due (m >>= f) where
  refused hs hdue := bind_of_error (hm.refused hs hdue)
  only hs he h := by
    rcases of_bind_error h with h | ⟨a, v, hok, h⟩
    · exact hm.only hs he h
    · exact absurd he ((hf a v (hm.keeps hs hok)).2 _ _ h).2
  keeps hs h := by
    obtain ⟨a, v, hok, h⟩ := of_bind_ok h
    exact (hf a v (hm.keeps hs hok)).1 _ _ h

/-- A check before an action that refuses nothing itself. -/
theorem check {c : Prop} [Decidable c] {e : ε} {m : EStateM ε σ α}
    (hm : Upholds P (fun e => ¬ R e) m) :
    Refuses P R (fun _ e' => c ∧ e' = e) (if c then throw e else m) where
  refused hs hdue := by
    obtain ⟨hc, rfl⟩ := hdue
    rw [if_pos hc]
    rfl
  only {s e' u} hs he h := by
    by_cases hc : c
    · rw [if_pos hc] at h
      cases h
      exact ⟨hc, rfl⟩
    · rw [if_neg hc] at h
      exact absurd he ((hm s hs).2 _ _ h).2
  keeps {s a u} hs h := by
    by_cases hc : c
    · rw [if_pos hc] at h
      cases h
    · rw [if_neg hc] at h
      exact (hm s hs).1 _ _ h

theorem weaken {R' : ε → Prop} {m : EStateM ε σ α} (hm : Refuses P R due m)
    (h : ∀ e, R' e → R e) : Refuses P R' due m where
  refused := hm.refused
  only hs he := hm.only hs (h _ he)
  keeps := hm.keeps

theorem congr {due' : σ → ε → Prop} {m : EStateM ε σ α} (hm : Refuses P R due m)
    (h : ∀ s e, due s e ↔ due' s e) : Refuses P R due' m where
  refused hs hdue := hm.refused hs ((h _ _).2 hdue)
  only hs he hrun := (h _ _).1 (hm.only hs he hrun)
  keeps := hm.keeps

/-- What an action on a part refuses, the whole refuses. -/
theorem within {δ τ : Type} {Q : τ → Prop} {F : δ → Prop} {due : τ → σ → ε → Prop}
    {leave : τ → σ → τ} {tell : ε → δ} {look : τ → σ} {m : τ → EStateM ε σ α}
    {whole : EStateM δ τ α} (heq : ∀ t, whole t = liftEnd (leave t) tell (m t (look t)))
    (hm : ∀ t, Refuses P (fun e => F (tell e)) (due t) (m t)) (hlook : ∀ t, Q t → P (look t))
    (hleave : ∀ t s, Q t → P s → Q (leave t s)) (hself : ∀ t, leave t (look t) = t) :
    Refuses Q F (fun t e' => ∃ e, tell e = e' ∧ due t (look t) e) whole where
  refused {t e'} ht hdue := by
    obtain ⟨e, rfl, hdue⟩ := hdue
    rw [heq, (hm t).refused (hlook t ht) hdue, liftEnd, hself]
  only {t e' u} ht he h := by
    rw [heq] at h
    cases hpart : m t (look t) with
    | ok a s =>
      rw [hpart] at h
      cases h
    | error e s =>
      rw [hpart] at h
      cases h
      exact ⟨e, rfl, (hm t).only (hlook t ht) he hpart⟩
  keeps {t a u} ht h := by
    rw [heq] at h
    cases hpart : m t (look t) with
    | ok b s =>
      rw [hpart] at h
      cases h
      exact hleave t s ht ((hm t).keeps (hlook t ht) hpart)
    | error e s =>
      rw [hpart] at h
      cases h

end Refuses

/-! ## What is refused in a pane -/

/-- It is no fault from outside, and no number has left the words. -/
def PaneError.IsRefusal (e : PaneError) : Prop := ¬ e.IsFault ∧ e ≠ .overflow

theorem PaneError.not_isRefusal_of_isFault {e : PaneError} (h : e.IsFault) : ¬ e.IsRefusal :=
  fun hrefusal => hrefusal.1 h

theorem footing_no_refusal [Text.Measure] :
    Footing (fun t => t.history.OfCells) Point.OnScreen fun e => ¬ e.IsRefusal :=
  footing_ofCells.weaken fun _ => PaneError.not_isRefusal_of_isFault

/-- The text cannot be read, and that is what is told. -/
def Unreadable (markup : Text) (e : PaneError) : Prop :=
  ∃ m, Markup.read markup = .error m ∧ e = .terminal (.markup m)

theorem exists_terminal_unreadable (markup : Text) (e : PaneError) :
    (∃ e', .terminal e' = e ∧ Unreadable markup (.terminal e')) ↔ Unreadable markup e := by
  constructor
  · rintro ⟨e', rfl, h⟩
    exact h
  · rintro ⟨m, hm, rfl⟩
    exact ⟨.markup m, rfl, m, hm, rfl⟩

theorem Terminal.refuses_writeMarkup [Text.Measure] (markup : Text) :
    Refuses (fun t : Terminal => t.history.OfCells) (fun e => PaneError.IsRefusal (.terminal e))
      (fun _ e => Unreadable markup (.terminal e)) (writeMarkup markup) := by
  have hread : Refuses (fun t : Terminal => t.history.OfCells)
      (fun e => PaneError.IsRefusal (.terminal e)) (fun _ e => Unreadable markup (.terminal e))
      (readMarkup markup) := by
    cases hread : Markup.read markup with
    | ok sections =>
      rw [readMarkup_of_ok hread]
      refine ⟨fun _ hdue => ?_, fun _ _ h => ?_, fun hs h => ?_⟩
      · obtain ⟨m, hm, -⟩ := hdue
        rw [hread] at hm
        cases hm
      · cases h
      · cases h
        exact hs
    | error m =>
      rw [readMarkup_of_error hread]
      refine ⟨fun _ hdue => ?_, fun _ _ h => ?_, fun hs h => ?_⟩
      · obtain ⟨m', hm, he⟩ := hdue
        rw [hread] at hm
        cases hm
        cases he
        rfl
      · cases h
        exact ⟨m, hread, rfl⟩
      · cases h
  exact hread.bind fun _ => .get_bind fun _ _ => footing_no_refusal.writeSections _ _

namespace Canvas

variable {α : Type}

/-- What an action in a pane refuses where the cursor is somewhere. -/
abbrev Refuses (R : PaneError → Prop) (due : Canvas → PaneError → Prop) (m : Action α) : Prop :=
  TerminalPanes.Refuses (Kept (fun t => t.history.OfCells) Point.OnScreen) R due m

/-- Nothing is refused where there is nothing to go on with. -/
theorem refuses_reckon {β γ : Type} {R : PaneError → Prop} (hover : ¬ R .overflow)
    {due : β → Canvas → PaneError → Prop} {x : Option β} {f : β → Action γ}
    (h : ∀ b, x = some b → Refuses R (due b) (f b)) :
    Refuses R (fun c e => ∃ b, x = some b ∧ due b c e) (reckon x >>= f) := by
  cases x with
  | none =>
    have hthrow : (reckon none >>= f) = throw .overflow := rfl
    rw [hthrow]
    refine ⟨fun _ hdue => ?_, fun _ he h => ?_, fun _ h => ?_⟩
    · obtain ⟨b, hb, -⟩ := hdue
      cases hb
    · cases h
      exact absurd he hover
    · cases h
  | some b =>
    rw [reckon_some_bind]
    refine (h b rfl).congr fun c e => ⟨fun hdue => ⟨b, rfl, hdue⟩, ?_⟩
    rintro ⟨_, ⟨⟩, hdue⟩
    exact hdue

theorem not_isRefusal_overflow : ¬ PaneError.IsRefusal .overflow := fun h => h.2 rfl

/-- The position is out of the padded area. -/
def Outside (v : View) (p : Point) (e : PaneError) : Prop :=
  ∃ area, v.area? = some area ∧ ∃ target, (area.start + p).words? = some target ∧
    ¬ area.contains target ∧ e = .outOfBounds target area

theorem refuses_moveToPadded [Text.Measure] (v : View) (p : Point) :
    Refuses PaneError.IsRefusal (fun _ e => Outside v p e) (moveToPadded v p) := by
  refine refuses_reckon not_isRefusal_overflow fun area _ =>
    refuses_reckon not_isRefusal_overflow fun target _ => ?_
  rw [← ite_not]
  exact .check (upholds_moveTo footing_no_refusal.standing target)

theorem refuses_write [Text.Measure] (markup : Text) :
    Refuses PaneError.IsRefusal (fun _ e => Unreadable markup e) (write markup) := by
  have hwithin : Refuses PaneError.IsRefusal
      (fun _ e => ∃ e', .terminal e' = e ∧ Unreadable markup (.terminal e'))
      (onTerminal (Terminal.writeMarkup markup)) :=
    .within (onTerminal_eq _) (fun _ => Terminal.refuses_writeMarkup markup)
      (fun _ hc => hc.terminal) (fun _ _ hc ht => ⟨ht, hc.lastKnown⟩) fun _ => rfl
  exact (hwithin.congr fun _ e => exists_terminal_unreadable markup e).bind fun _ =>
    upholds_remember footing_no_refusal.standing

/-- The next line would be below the padded area. -/
def LineBelow (v : View) (c : Canvas) (e : PaneError) : Prop :=
  ∃ area, v.area? = some area ∧ ∃ p, c.terminal.position? = some p ∧ area.stop.y ≤ p.y + 1 ∧
    e = .belowBottom (p.y + 1) area.stop.y

/-- Whether there is a next line is told by where the cursor is. -/
theorem newline_eq [Text.Measure] {v : View} {area : Rect} (harea : v.area? = some area)
    {c : Canvas} {p : Point} (hp : c.terminal.position? = some p) :
    newline v c = (if area.stop.y ≤ p.y + 1 then throw (.belowBottom (p.y + 1) area.stop.y)
      else moveTo ⟨area.start.x, p.y + 1⟩) c := by
  unfold newline
  rw [harea, reckon_some_bind, bind_of_ok (position_of_position? hp)]
  by_cases hbelow : area.stop.y ≤ p.y + 1
  · rw [if_pos hbelow, if_pos hbelow]
    rfl
  · rw [if_neg hbelow, if_neg hbelow]

theorem refuses_newline_in [Text.Measure] {v : View} {area : Rect} (harea : v.area? = some area) :
    Refuses PaneError.IsRefusal (fun c e => ∃ p, c.terminal.position? = some p ∧
      area.stop.y ≤ p.y + 1 ∧ e = .belowBottom (p.y + 1) area.stop.y) (newline v) := by
  have hcheck := fun p : Point => Refuses.check (R := PaneError.IsRefusal)
    (c := area.stop.y ≤ p.y + 1) (e := .belowBottom (p.y + 1) area.stop.y)
    (upholds_moveTo footing_no_refusal.standing ⟨area.start.x, p.y + 1⟩)
  refine ⟨fun {c e} hc hdue => ?_, fun {c e u} hc he h => ?_, fun {c a u} hc h => ?_⟩
  · obtain ⟨p, hp, hdue⟩ := hdue
    rw [newline_eq harea hp]
    exact (hcheck p).refused hc hdue
  · obtain ⟨p, hp, -⟩ := footing_ofCells.position c.terminal hc.terminal
    rw [newline_eq harea hp] at h
    exact ⟨p, hp, (hcheck p).only hc he h⟩
  · obtain ⟨p, hp, -⟩ := footing_ofCells.position c.terminal hc.terminal
    rw [newline_eq harea hp] at h
    exact (hcheck p).keeps hc h

theorem refuses_newline [Text.Measure] (v : View) :
    Refuses PaneError.IsRefusal (LineBelow v) (newline v) := by
  refine refuses_reckon not_isRefusal_overflow fun area harea => ?_
  have hin := refuses_newline_in harea
  unfold newline at hin
  rwa [harea, reckon_some_bind] at hin

/-- Only the new line is refused before anything is done. The text is read once
the cursor has moved. -/
theorem refuses_writeOnNewline [Text.Measure] (v : View) (markup : Text) :
    Refuses (fun e => e.isOutOfBounds) (LineBelow v) (writeOnNewline v markup) := by
  have hnewline : Refuses (fun e => e.isOutOfBounds) (LineBelow v) (newline v) := by
    refine (refuses_newline v).weaken fun e he => ⟨?_, ?_⟩
    · rintro ⟨f, rfl⟩
      cases he
    · rintro rfl
      cases he
  have hfooting :
      Footing (fun t => t.history.OfCells) Point.OnScreen fun e => ¬ e.isOutOfBounds := by
    refine footing_ofCells.weaken ?_
    rintro _ ⟨f, rfl⟩ he
    cases he
  have hcovers : Covers (fun e => ¬ e.isOutOfBounds) markup := fun _ _ he => by cases he
  exact hnewline.bind fun _ => upholds_write hfooting.standing hcovers.yields

end Canvas

namespace Workspace

variable {α : Type}

/-- What an action in a workspace refuses where the cursor is somewhere. -/
abbrev Refuses (R : PaneError → Prop) (due : Workspace → PaneError → Prop) (m : Action α) : Prop :=
  TerminalPanes.Refuses Sound R due m

theorem leave_canvas (w : Workspace) (id : Nat) : w.leave id (w.canvas id) = w := by
  have hsame : w.panes.modify (fun p => { p with lastKnown := w.panes.lastKnown id }) id =
      w.panes := Forest.modify_eq_self rfl
  unfold leave canvas
  dsimp only
  rw [hsame]

theorem refuses_onPane {R : PaneError → Prop} {due : View → Canvas → PaneError → Prop} (id : Nat)
    {action : View → Canvas.Action α} (h : ∀ v, Canvas.Refuses R (due v) (action v)) :
    Refuses R (fun w e => due (w.view w.terminal.size id) (w.canvas id) e) (onPane id action) := by
  have hwithin : Refuses R
      (fun w e => ∃ e', e' = e ∧ due (w.view w.terminal.size id) (w.canvas id) e')
      (onPane id action) :=
    .within (onPane_eq id action) (fun _ => h _) (fun _ hw => hw.canvas id)
      (fun _ _ hw hc => hw.leave hc id) fun w => w.leave_canvas id
  exact hwithin.congr fun _ _ => exists_eq_left

theorem refuses_silent {R : PaneError → Prop} {due : Workspace → PaneError → Prop}
    {action : Action Unit} (h : Refuses R due action) : Refuses R due (silent action) :=
  h.bind fun _ => .pure _

/-- A refusal is told by the step, and it leaves the workspace as it was. -/
theorem step_of_refuses [Text.Measure] {R : PaneError → Prop} {due : Workspace → PaneError → Prop}
    {w : Workspace} (hw : w.Sound) {op : Operation} (h : Refuses R due op.run) {e : PaneError}
    (he : R e) :
    ((w.step op).result = .error e ↔ due w e) ∧
      ((w.step op).result = .error e → (w.step op).workspace = w) := by
  have hdue : (w.step op).result = .error e → due w e := by
    rw [step_eq]
    cases hrun : op.run w with
    | ok answer u =>
      intro hresult
      cases hresult
    | error e' u =>
      intro hresult
      cases hresult
      exact h.only hw he hrun
  have hrefused : due w e → w.step op = ⟨.error e, w⟩ := by
    intro hdue
    rw [step_eq, h.refused hw hdue]
    rfl
  refine ⟨⟨hdue, fun h => ?_⟩, fun h => ?_⟩
  · rw [hrefused h]
  · rw [hrefused (hdue h)]

/-! ## What is refused in a workspace -/

/-- The padded area of a pane at the present size, if no number leaves the words on the
way to it. -/
def area? (w : Workspace) (id : Nat) : Option Rect := (w.view w.terminal.size id).area?

/-- The text that an operation reads as markup before it does anything. -/
inductive Operation.Reads : Operation → Text → Prop where
  | writeMarkup (markup : Text) : Reads (.terminal (.writeMarkup markup)) markup
  | write (id : Nat) (markup : Text) : Reads (.onPane id (.write markup)) markup
  | confirm (id : Nat) (message : Option Text) :
    Reads (.onPane id (.confirm message)) (message.getD defaultQuestion ++ choices)
  | pause (id : Nat) (message : Option Text) :
    Reads (.onPane id (.pause message)) (message.getD defaultPause)

/-- The errors that an operation checks for before it does anything. -/
inductive Operation.Checks : Operation → PaneError → Prop where
  | outside (id : Nat) (p point : Point) (area : Rect) :
    Checks (.onPane id (.moveToPadded p)) (.outOfBounds point area)
  | newline (id : Nat) (row bottom : Int) :
    Checks (.onPane id .newline) (.belowBottom row bottom)
  | writeOnNewline (id : Nat) (markup : Text) (row bottom : Int) :
    Checks (.onPane id (.writeOnNewline markup)) (.belowBottom row bottom)
  | unreadable {op : Operation} {markup : Text} (m : MarkupError) :
    op.Reads markup → Checks op (.terminal (.markup m))

theorem Operation.Checks.isRefusal {op : Operation} {e : PaneError} (h : op.Checks e) :
    e.IsRefusal := by
  refine ⟨?_, ?_⟩
  · rintro ⟨f, hf⟩
    cases h <;> cases hf
  · rintro he
    cases h <;> cases he

/-- What each of these errors is for, the cursor being at `cursor`. The padded area and the
position in it are those that are computed in words. -/
inductive Due (w : Workspace) (cursor : Point) : Operation → PaneError → Prop where
  | outside {id : Nat} {p point : Point} {area : Rect} (harea : w.area? id = some area)
    (hpoint : (area.start + p).words? = some point)
    (hout : point.x < area.start.x ∨ area.stop.x ≤ point.x ∨
      point.y < area.start.y ∨ area.stop.y ≤ point.y) :
    Due w cursor (.onPane id (.moveToPadded p)) (.outOfBounds point area)
  | newline {id : Nat} {area : Rect} (harea : w.area? id = some area)
    (hbelow : area.stop.y ≤ cursor.y + 1) :
    Due w cursor (.onPane id .newline) (.belowBottom (cursor.y + 1) area.stop.y)
  | writeOnNewline {id : Nat} {markup : Text} {area : Rect} (harea : w.area? id = some area)
    (hbelow : area.stop.y ≤ cursor.y + 1) :
    Due w cursor (.onPane id (.writeOnNewline markup))
      (.belowBottom (cursor.y + 1) area.stop.y)
  | unreadable {op : Operation} {markup : Text} {m : MarkupError} (hreads : op.Reads markup)
    (hm : Markup.read markup = .error m) : Due w cursor op (.terminal (.markup m))

/-- What is asked for is read before it is shown, and before any key is. -/
theorem refuses_run_of_reads [Text.Measure] {op : Operation} {markup : Text}
    (h : op.Reads markup) :
    Refuses PaneError.IsRefusal (fun _ e => Unreadable markup e) op.run := by
  have hwrite : ∀ (id : Nat) (markup : Text), Refuses PaneError.IsRefusal
      (fun _ e => Unreadable markup e) (onPane id fun _ => Canvas.write markup) :=
    fun id markup => refuses_onPane id fun _ => Canvas.refuses_write markup
  have hkeys : ∀ {α : Type} (ask : KeyInput → Except Fault α × KeyInput),
      Upholds Sound (fun e => ¬ e.IsRefusal) (asking ask) :=
    upholds_asking fun f => PaneError.not_isRefusal_of_isFault ⟨f, rfl⟩
  cases h with
  | writeMarkup =>
    have hwithin : Refuses PaneError.IsRefusal
        (fun _ e => ∃ e', .terminal e' = e ∧ Unreadable markup (.terminal e'))
        (onTerminal (Terminal.Operation.silent (Terminal.writeMarkup markup))) :=
      .within (onTerminal_eq _)
        (fun _ => (Terminal.refuses_writeMarkup markup).bind fun _ => .pure _)
        (fun _ hw => hw.terminal) (fun _ _ hw ht => ⟨ht, hw.lastKnown⟩) fun _ => rfl
    exact (hwithin.congr fun _ e => exists_terminal_unreadable markup e).bind fun _ => .pure _
  | write id => exact refuses_silent (hwrite id markup)
  | confirm id message =>
    have hconfirm : Refuses PaneError.IsRefusal
        (fun _ e => Unreadable (message.getD defaultQuestion ++ choices) e)
        (Workspace.confirm id message) := by
      rw [confirm_eq]
      exact (hwrite id _).bind fun _ => hkeys _
    exact hconfirm.bind fun _ => .pure _
  | pause id message =>
    have hread : Upholds Sound (fun e => ¬ e.IsRefusal) readKey := readKey_eq ▸ hkeys _
    exact refuses_silent ((hwrite id _).bind fun _ => .bind hread fun _ => .pure _)

theorem refuses_run_moveToPadded [Text.Measure] (id : Nat) (p : Point) :
    Refuses PaneError.IsRefusal (fun w e => Canvas.Outside (w.view w.terminal.size id) p e)
      (Operation.onPane id (.moveToPadded p)).run :=
  refuses_silent (refuses_onPane id fun v => Canvas.refuses_moveToPadded v p)

/-- The line after the cursor's would be below the padded area of a pane. -/
def LineBelow (id : Nat) (w : Workspace) (e : PaneError) : Prop :=
  Canvas.LineBelow (w.view w.terminal.size id) (w.canvas id) e

theorem refuses_run_newline [Text.Measure] (id : Nat) :
    Refuses PaneError.IsRefusal (LineBelow id) (Operation.onPane id .newline).run :=
  refuses_silent (refuses_onPane id Canvas.refuses_newline)

theorem refuses_run_writeOnNewline [Text.Measure] (id : Nat) (markup : Text) :
    Refuses (fun e => e.isOutOfBounds) (LineBelow id)
      (Operation.onPane id (.writeOnNewline markup)).run :=
  refuses_silent (refuses_onPane id fun v => Canvas.refuses_writeOnNewline v markup)

/-! ## What is due -/

variable {w : Workspace} {cursor : Point} {id : Nat}

theorem Operation.Reads.unique {op : Operation} {markup markup' : Text} (h : op.Reads markup)
    (h' : op.Reads markup') : markup = markup' := by
  cases h <;> cases h' <;> rfl

theorem due_outside_iff {p point : Point} {area : Rect} :
    w.Due cursor (.onPane id (.moveToPadded p)) (.outOfBounds point area) ↔
      Canvas.Outside (w.view w.terminal.size id) p (.outOfBounds point area) := by
  have hout : ∀ (area : Rect) (point : Point), ¬ area.contains point ↔
      point.x < area.start.x ∨ area.stop.x ≤ point.x ∨ point.y < area.start.y ∨
        area.stop.y ≤ point.y := by
    intro area point
    simp only [Rect.contains, Bool.and_eq_true, decide_eq_true_eq]
    omega
  constructor
  · rintro (⟨harea, hpoint, h⟩ | _ | _ | ⟨⟨⟩, _⟩)
    exact ⟨area, harea, point, hpoint, (hout area point).2 h, rfl⟩
  · rintro ⟨_, harea, _, hpoint, h, heq⟩
    cases heq
    exact .outside harea hpoint ((hout area point).1 h)

theorem due_below_iff {op : PaneOperation}
    (hop : op = .newline ∨ ∃ markup, op = .writeOnNewline markup)
    (hcursor : w.terminal.position? = some cursor) {row bottom : Int} :
    w.Due cursor (.onPane id op) (.belowBottom row bottom) ↔
      LineBelow id w (.belowBottom row bottom) := by
  constructor
  · rintro (_ | ⟨harea, hbelow⟩ | ⟨harea, hbelow⟩ | ⟨⟨⟩, _⟩)
    · exact ⟨_, harea, cursor, hcursor, hbelow, rfl⟩
    · exact ⟨_, harea, cursor, hcursor, hbelow, rfl⟩
  · rintro ⟨area, harea, p, hp, hbelow, heq⟩
    obtain rfl : cursor = p := Option.some_inj.1 (hcursor.symm.trans hp)
    cases heq
    rcases hop with rfl | ⟨markup, rfl⟩
    · exact .newline harea hbelow
    · exact .writeOnNewline harea hbelow

theorem due_unreadable_iff {op : Operation} {markup : Text} (hreads : op.Reads markup)
    {m : MarkupError} :
    w.Due cursor op (.terminal (.markup m)) ↔ Unreadable markup (.terminal (.markup m)) := by
  constructor
  · rintro (_ | _ | _ | ⟨hreads', hm⟩)
    obtain rfl := hreads.unique hreads'
    exact ⟨m, hm, rfl⟩
  · rintro ⟨m', hm, heq⟩
    cases heq
    exact .unreadable hreads hm

/-- Where there is a workspace the cursor is somewhere. An operation fails with an error
that it checks for exactly when that error is due, and it has then changed nothing. A
position that is not of words is nowhere, neither in the padded area nor outside. -/
theorem refused_operations_change_nothing [Text.Measure] {w : Workspace} (hw : w.Reachable) :
    ∃ cursor, w.terminal.position? = some cursor ∧ ∀ op e, Operation.Checks op e →
      ((w.step op).result = .error e ↔ w.Due cursor op e) ∧
        ((w.step op).result = .error e → (w.step op).workspace = w) := by
  obtain ⟨cursor, hcursor, -⟩ := Terminal.exists_position hw.sound.terminal
  refine ⟨cursor, hcursor, fun op e h => ?_⟩
  have he : e.IsRefusal := h.isRefusal
  cases h with
  | outside id p point area =>
    rw [due_outside_iff]
    exact step_of_refuses hw.sound (refuses_run_moveToPadded id p) he
  | newline id row bottom =>
    rw [due_below_iff (.inl rfl) hcursor]
    exact step_of_refuses hw.sound (refuses_run_newline id) he
  | writeOnNewline id markup row bottom =>
    rw [due_below_iff (.inr ⟨markup, rfl⟩) hcursor]
    exact step_of_refuses hw.sound (refuses_run_writeOnNewline id markup) rfl
  | unreadable m hreads =>
    rw [due_unreadable_iff hreads]
    exact step_of_refuses hw.sound (refuses_run_of_reads hreads) he

open scoped Text.Tables in
/-- A move to the seventh of six columns. -/
theorem a_move_beyond_the_last_column_changes_nothing :
    ∃ w : Workspace, w.Reachable ∧
      (w.step (.onPane 0 (.moveToPadded ⟨6, 1⟩))).result =
        .error (.outOfBounds ⟨6, 1⟩ ⟨⟨0, 0⟩, ⟨6, 4⟩⟩) ∧
      (w.step (.onPane 0 (.moveToPadded ⟨6, 1⟩))).workspace = w := by
  obtain ⟨opened, hopened, hpanes⟩ : ∃ w : Workspace,
      opening (blank Sink.unlimited ⟨80, 24⟩ Config.default []) = .ok () w ∧ w.panes = [] :=
    ⟨_, rfl, rfl⟩
  let w := (opened.step (.newPane (.between (.fixed ⟨0, 0⟩) (.fixed ⟨6, 4⟩)))).workspace
  have hw : w.Reachable := .stepped _ (.opened hopened)
  have hgrown : w.panes = [Pane.ofPlacement (.between (.fixed ⟨0, 0⟩) (.fixed ⟨6, 4⟩))] := by
    change Pane.ofPlacement _ :: opened.panes = _
    rw [hpanes]
  have harea : w.area? 0 = some ⟨⟨0, 0⟩, ⟨6, 4⟩⟩ := by
    rw [area?, view, hgrown]
    rfl
  obtain ⟨cursor, -, hrefused⟩ := refused_operations_change_nothing hw
  obtain ⟨hresult, hsame⟩ := hrefused (.onPane 0 (.moveToPadded ⟨6, 1⟩))
    (.outOfBounds ⟨6, 1⟩ ⟨⟨0, 0⟩, ⟨6, 4⟩⟩) (.outside 0 _ _ _)
  have hmove := hresult.2 (.outside harea rfl (.inr (.inl (by decide))))
  exact ⟨w, hw, hmove, hsame hmove⟩

end Workspace

end TerminalPanes
