-- How far the style on record can be trusted. From the opening on the screen
-- shows the colours on record, and no attribute beyond the record. It shows
-- the record itself unless bold or dim was turned off while the other one was
-- to stay: they share one off code, and the screen turns off both.
import TerminalPanes.Proofs.TerminalEndings
import TerminalPanes.Text.Tables

namespace TerminalPanes.Terminal

/-! ## What an operation does to the style -/

namespace Operation

/-- The acts that an operation performs when it ends well. -/
def acts (c : Config) : Operation → List StyleAct
  | .writeMarkup t =>
    match Markup.read t with
    | .ok sections => sections.flatMap (Section.acts c)
    | .error _ => []
  | .writeSections sections _ => sections.flatMap (Section.acts c)
  | .apply i => [i.act]
  | .turnOn set => [.turnOn set]
  | .turnOff set => [.turnOff set]
  | .resetStyle => [.reset]
  | .resetColors => c.colorActs
  | .setForeground color => [.foreground color]
  | .setBackground color => [.background color]
  | .restore => [.reset]
  | _ => []

/-- The characters that the caller has an operation send. -/
def given : Operation → Text
  | .write t _ => t
  | .writeRaw t => t
  | .writeMarkup t =>
    match Markup.read t with
    | .ok sections => Section.contents sections
    | .error _ => []
  | .writeSections sections _ => Section.contents sections
  | _ => []

/-- The caller sends no sequences of its own. -/
def Plain (op : Operation) : Prop := Event.escape ∉ op.given

instance (op : Operation) : Decidable op.Plain := inferInstanceAs (Decidable (_ ∉ _))

end Operation

/-- An action that ended well performed acts and sent emissions. -/
structure Did (t u : Terminal) (acts : List StyleAct) (es : List Emission) : Prop where
  sink : u.sink = t.sink.takeAll es
  style : u.style = t.style.actAll acts
  config : u.config = t.config
  told : Emission.stylings es = t.style.tellsAll acts

namespace Did

variable {t u v : Terminal} {acts acts' : List StyleAct} {es es' : List Emission}

theorem refl (t : Terminal) : Did t t [] [] := ⟨rfl, rfl, rfl, rfl⟩

theorem append (h : Did t u acts es) (h' : Did u v acts' es') :
    Did t v (acts ++ acts') (es ++ es') := by
  refine ⟨?_, ?_, ?_, ?_⟩
  · rw [h'.sink, h.sink, Sink.takeAll_append]
  · rw [h'.style, h.style, Style.actAll_append]
  · rw [h'.config, h.config]
  · rw [Emission.stylings_append, Style.tellsAll_append, ← h.style, ← h.told, ← h'.told]

/-- An action with one end did what that end shows. -/
theorem of_ends {α : Type} {m : Action α} {a b : α} {history : History}
    (hm : Ends m t a (t.became es (t.style.actAll acts) history))
    (htold : Emission.stylings es = t.style.tellsAll acts) (h : m t = .ok b u) :
    Did t u acts es := by
  obtain ⟨-, rfl⟩ := hm.only h
  exact ⟨rfl, rfl, rfl, htold⟩

end Did

theorem did_perform {x : StyleAct} {t u : Terminal} (h : perform x t = .ok () u) :
    Did t u [x] ((t.style.tells x).map .control) := by
  refine Did.of_ends (Ends.perform x t) ?_ h
  have htold := Style.stylings_tellsAll t.style [x]
  simp only [Style.tellsAll, List.append_nil] at htold ⊢
  exact htold

/-! ## Quiet actions -/

/-- The action performs no acts and sends nothing but sequences. -/
def Quiet {α : Type} (m : Action α) : Prop :=
  ∀ {t : Terminal} {a : α} {u : Terminal}, m t = .ok a u →
    ∃ qs : List Sequence, Did t u [] (qs.map .control)

namespace Quiet

variable {α β : Type}

theorem pure (a : α) : Quiet (Pure.pure a : Action α) := by
  intro t b u h
  cases h
  exact ⟨[], Did.refl t⟩

theorem bind {m : Action α} {f : α → Action β} (hm : Quiet m) (hf : ∀ a, Quiet (f a)) :
    Quiet (m >>= f) := by
  intro t b v h
  obtain ⟨a, u, hok, h⟩ := of_bind_ok h
  obtain ⟨qs, hfirst⟩ := hm hok
  obtain ⟨qs', hthen⟩ := hf a h
  refine ⟨qs ++ qs', ?_⟩
  rw [List.map_append]
  exact hfirst.append hthen

theorem get : Quiet (MonadState.get : Action Terminal) := by
  intro t b u h
  cases h
  exact ⟨[], Did.refl t⟩

theorem throw (e : TerminalError) : Quiet (MonadExcept.throw e : Action α) := by
  intro t b u h
  cases h

theorem setHistory (history : History) : Quiet (setHistory history) := by
  intro t b u h
  cases h
  exact ⟨[], rfl, rfl, rfl, rfl⟩

theorem resize (size : Size) : Quiet (resize size) := by
  intro t b u h
  cases h
  exact ⟨[], rfl, rfl, rfl, rfl⟩

theorem send {q : Sequence} (hq : q.final ≠ 'm') : Quiet (send q) := by
  intro t b u h
  refine ⟨[q], Did.of_ends (Ends.send q t) ?_ h⟩
  simp [Emission.stylings, Emission.styling?, hq, Style.tellsAll]

theorem currentCell : Quiet currentCell := by
  refine bind get fun s => ?_
  split
  · exact pure _
  · exact throw _

theorem moveTo (p : Point) : Quiet (moveTo p) := by
  refine bind get fun s => ?_
  exact bind (setHistory _) fun _ => send (by simp [Sequence.final])

theorem stepTo (step : History → Option History) : Quiet (stepTo step) := by
  refine bind get fun s => ?_
  split
  · exact pure false
  · refine bind (setHistory _) fun _ => ?_
    exact bind currentCell fun _ => bind (send (by simp [Sequence.final])) fun _ => pure true

theorem moveBy (delta : Point) : Quiet (moveBy delta) :=
  bind (bind currentCell fun _ => pure _) fun _ => moveTo _

theorem erase (what : Erase) : Quiet (erase what) := by
  refine send ?_
  cases what <;> decide

theorem clearScreen : Quiet clearScreen := bind (erase .screen) fun _ => moveTo _

end Quiet

/-! ## Operations -/

theorem of_silent {m : Action Unit} {t u : Terminal} {answer : Option Bool}
    (h : Operation.silent m t = .ok answer u) : m t = .ok () u := by
  obtain ⟨_, v, hok, h⟩ := of_bind_ok h
  cases h
  exact hok

theorem of_telling {m : Action Bool} {t u : Terminal} {answer : Option Bool}
    (h : Operation.telling m t = .ok answer u) : ∃ b, m t = .ok b u := by
  obtain ⟨b, v, hok, h⟩ := of_bind_ok h
  cases h
  exact ⟨b, hok⟩

/-- The operation performed its acts, and sent plain emissions if the caller
had it send no sequences. -/
def DidAs (op : Operation) (t u : Terminal) : Prop :=
  ∃ es, Did t u (op.acts t.config) es ∧ (op.Plain → ∀ e ∈ es, e.Plain)

namespace DidAs

variable {op : Operation} {t u : Terminal}

theorem of_quiet {α : Type} {m : Action α} {a : α} (hm : Quiet m) (hacts : op.acts t.config = [])
    (h : m t = .ok a u) : DidAs op t u := by
  obtain ⟨qs, hdid⟩ := hm h
  refine ⟨qs.map .control, ?_, fun _ _ => Emission.plain_of_mem_map_control⟩
  rw [hacts]
  exact hdid

theorem of_perform {x : StyleAct} (hacts : op.acts t.config = [x])
    (h : perform x t = .ok () u) : DidAs op t u := by
  refine ⟨(t.style.tells x).map .control, ?_, fun _ _ => Emission.plain_of_mem_map_control⟩
  rw [hacts]
  exact did_perform h

end DidAs

theorem acts_flatMap_of_cutOf {wrap : Wrap} {sections cut : List Section}
    (h : List.Forall₂ (CutOf wrap) sections cut) (c : Config) :
    cut.flatMap (Section.acts c) = sections.flatMap (Section.acts c) := by
  induction h with
  | nil => rfl
  | cons hs _ ih =>
    rw [List.flatMap_cons, List.flatMap_cons, ih, Section.acts, hs.instructions]
    rfl

theorem escape_not_mem_of_cutOf {wrap : Wrap} {sections cut : List Section}
    (h : List.Forall₂ (CutOf wrap) sections cut)
    (hplain : Event.escape ∉ Section.contents sections) :
    ∀ s ∈ cut, Event.escape ∉ s.content := by
  induction h with
  | nil => exact List.forall_mem_nil _
  | @cons s s' rest rest' hs _ ih =>
    simp only [Section.contents, List.map_cons, List.flatten_cons, List.mem_append, not_or]
      at hplain
    refine List.forall_mem_cons.2 ⟨?_, ih hplain.2⟩
    exact fun hmem => hplain.1 (hs.content.subset hmem)

/-- Sections are written as the acts and contents that they are made of. -/
theorem did_writeSections [Text.Measure] {sections : List Section} {wrap : Wrap} {t u : Terminal}
    (hv : t.history.Valid) (h : writeSections sections wrap t = .ok () u) :
    ∃ es, Did t u (sections.flatMap (Section.acts t.config)) es ∧
      (Event.escape ∉ Section.contents sections → ∀ e ∈ es, e.Plain) := by
  obtain ⟨cell, hc⟩ := History.current?_of_lt hv.index_lt
  obtain ⟨history, -, hends⟩ := ends_writeSections hv hc sections wrap
  have hcut := cutOf_cutFrom t cell wrap sections
  refine ⟨_, Did.of_ends hends ?_ h, ?_⟩
  · rw [Section.stylings_emissionsOfAll, acts_flatMap_of_cutOf hcut]
  · intro hplain e he
    exact Section.plain_of_mem_emissionsOfAll (escape_not_mem_of_cutOf hcut hplain) he

/-- Every operation that ends well did as it is known for. -/
theorem didAs_run [Text.Measure] {op : Operation} {t u : Terminal} {answer : Option Bool}
    (hv : t.history.Valid) (h : op.run t = .ok answer u) : DidAs op t u := by
  cases op with
  | write text wrap =>
    obtain ⟨cell, hc⟩ := History.current?_of_lt hv.index_lt
    refine ⟨_, Did.of_ends (Ends.write hc text wrap) rfl (of_silent h), ?_⟩
    intro hplain e he
    rw [List.mem_singleton] at he
    subst he
    exact fun hmem => hplain ((visibleAt_isPrefix t cell text wrap).subset hmem)
  | writeRaw text =>
    refine ⟨_, Did.of_ends (Ends.emit (.raw text) t) rfl (of_silent h), ?_⟩
    intro hplain e he
    rw [List.mem_singleton] at he
    subst he
    exact hplain
  | writeMarkup text =>
    obtain ⟨sections, v, hread, hwrite⟩ := of_bind_ok (of_silent h)
    cases hfound : Markup.read text with
    | ok found =>
      rw [readMarkup, hfound] at hread
      cases hread
      obtain ⟨es, hdid, hplain⟩ := did_writeSections hv hwrite
      refine ⟨es, ?_, ?_⟩
      · simp only [Operation.acts, hfound]
        exact hdid
      · simp only [Operation.Plain, Operation.given, hfound]
        exact hplain
    | error e =>
      rw [readMarkup, hfound] at hread
      cases hread
  | writeSections sections wrap =>
    obtain ⟨s, v, hget, hwrite⟩ := of_bind_ok (of_silent h)
    cases hget
    exact did_writeSections hv hwrite
  | apply i =>
    have hrun := of_silent h
    rw [apply_eq_perform] at hrun
    exact DidAs.of_perform rfl hrun
  | turnOn set => exact @DidAs.of_perform _ t u (.turnOn set) rfl (of_silent h)
  | turnOff set => exact @DidAs.of_perform _ t u (.turnOff set) rfl (of_silent h)
  | resetStyle => exact @DidAs.of_perform _ t u .reset rfl (of_silent h)
  | resetColors =>
    refine ⟨_, Did.of_ends (Ends.resetColors t) (Style.stylings_tellsAll _ _) (of_silent h), ?_⟩
    exact fun _ _ => Emission.plain_of_mem_map_control
  | setForeground color => exact @DidAs.of_perform _ t u (.foreground color) rfl (of_silent h)
  | setBackground color => exact @DidAs.of_perform _ t u (.background color) rfl (of_silent h)
  | moveTo p => exact DidAs.of_quiet (Quiet.moveTo p) rfl (of_silent h)
  | stepBack =>
    obtain ⟨b, hok⟩ := of_telling h
    exact DidAs.of_quiet (Quiet.stepTo _) rfl hok
  | stepForward =>
    obtain ⟨b, hok⟩ := of_telling h
    exact DidAs.of_quiet (Quiet.stepTo _) rfl hok
  | moveBy delta => exact DidAs.of_quiet (Quiet.moveBy delta) rfl (of_silent h)
  | moveToward d count => exact DidAs.of_quiet (Quiet.moveBy _) rfl (of_silent h)
  | hideCursor => exact DidAs.of_quiet (Quiet.send (by decide)) rfl (of_silent h)
  | showCursor => exact DidAs.of_quiet (Quiet.send (by decide)) rfl (of_silent h)
  | clearScreen => exact DidAs.of_quiet Quiet.clearScreen rfl (of_silent h)
  | erase what => exact DidAs.of_quiet (Quiet.erase what) rfl (of_silent h)
  | restore =>
    obtain ⟨_, v, hreset, hshow⟩ := of_bind_ok (of_silent h)
    have hfirst : Did t v [.reset] [.control .reset] := @did_perform .reset t v hreset
    obtain ⟨qs, hthen⟩ := Quiet.send (by decide) hshow
    refine ⟨_, hfirst.append hthen, ?_⟩
    intro _ e he
    rw [List.singleton_append, ← List.map_cons] at he
    exact Emission.plain_of_mem_map_control he
  | resize size => exact DidAs.of_quiet (Quiet.resize size) rfl (of_silent h)

/-! ## Runs -/

/-- Opens a terminal and does operations with it. -/
def openAndRun [Text.Measure] (ops : List Operation) : Action Unit := do
  opening
  Operation.runAll ops

theorem did_runAll [Text.Measure] {ops : List Operation} {t u : Terminal} (hv : t.history.Valid)
    (hplain : ∀ op ∈ ops, op.Plain) (h : Operation.runAll ops t = .ok () u) :
    ∃ es, Did t u (ops.flatMap (Operation.acts t.config)) es ∧ ∀ e ∈ es, e.Plain := by
  induction ops generalizing t with
  | nil =>
    cases h
    exact ⟨[], Did.refl u, List.forall_mem_nil _⟩
  | cons op rest ih =>
    obtain ⟨answer, v, hop, hrest⟩ := of_bind_ok h
    obtain ⟨hplain, hplains⟩ := List.forall_mem_cons.1 hplain
    obtain ⟨es, hdid, hes⟩ := didAs_run hv hop
    have hvalid : v.history.Valid := (KeepsReading.run History.stable_valid op t hv).1 answer v hop
    obtain ⟨es', hdid', hes'⟩ := ih hvalid hplains hrest
    rw [hdid.config] at hdid'
    refine ⟨es ++ es', hdid.append hdid', ?_⟩
    intro e he
    rcases List.mem_append.1 he with he | he
    · exact hes hplain e he
    · exact hes' e he

/-- The opening and a run send what the acts tell that they are made of, and
leave on record what these acts leave. -/
theorem sent_openAndRun [Text.Measure] {limit : Option Nat} {size : Size} {config : Config}
    {ops : List Operation} {t : Terminal} (hplain : ∀ op ∈ ops, op.Plain)
    (h : openAndRun ops (blank (Sink.ofLimit limit) size config) = .ok () t) :
    ∃ es : List Emission, t.sink.text = es.flatMap Emission.chars ∧ (∀ e ∈ es, e.Plain) ∧
      Emission.stylings es =
        Style.plain.tellsAll (config.closingActs ++ ops.flatMap (Operation.acts config)) ∧
      t.style = Style.plain.actAll (config.closingActs ++ ops.flatMap (Operation.acts config)) := by
  obtain ⟨_, v, hopening, hrun⟩ := of_bind_ok h
  obtain ⟨-, rfl⟩ := (Ends.closing (blank (Sink.ofLimit limit) size config)).only hopening
  obtain ⟨es, hdid, hes⟩ := did_runAll (History.valid_ofLimit config.historyLimit) hplain hrun
  refine ⟨(Style.plain.tellsAll config.closingActs).map .control ++ es, ?_, ?_, ?_, ?_⟩
  · rw [hdid.sink, became_sink, ← Sink.takeAll_append, Sink.text_takeAll]
    rfl
  · intro e he
    rcases List.mem_append.1 he with he | he
    · exact Emission.plain_of_mem_map_control he
    · exact hes e he
  · rw [Emission.stylings_append, Style.stylings_tellsAll, hdid.told, Style.tellsAll_append]
    rfl
  · rw [hdid.style, Style.actAll_append]
    rfl

/-- What stands in the stream after the opening and a run, and what is on
record then. -/
theorem did_openAndRun [Text.Measure] {limit : Option Nat} {size : Size} {config : Config}
    {ops : List Operation} {t : Terminal} (hplain : ∀ op ∈ ops, op.Plain)
    (h : openAndRun ops (blank (Sink.ofLimit limit) size config) = .ok () t) (start : Style) :
    t.style = config.plainStyle.actAll (ops.flatMap (Operation.acts config)) ∧
      start.replay (Event.read t.sink.text) = config.plainStyle.toldAll
        (config.plainStyle.tellsAll (ops.flatMap (Operation.acts config))) := by
  obtain ⟨es, htext, hes, htold, hstyle⟩ := sent_openAndRun hplain h
  refine ⟨?_, ?_⟩
  · rw [hstyle, Style.actAll_append, Config.actAll_closingActs]
  · rw [htext, Style.replay_emissions start hes, htold, Style.tellsAll_append, Style.toldAll_append,
      Config.tellsAll_closingActs]
    rfl

/-- From the opening on the screen shows the colours on record and every
attribute on record, but for bold or dim where it was stranded. -/
theorem the_screen_shows_the_record_but_for_the_stranded [Text.Measure] (start : Style)
    {limit : Option Nat}
    {size : Size} {config : Config} {ops : List Operation} {t : Terminal}
    (hplain : ∀ op ∈ ops, op.Plain)
    (hrun : openAndRun ops (blank (Sink.ofLimit limit) size config) = .ok () t) :
    (start.replay (Event.read t.sink.text)).foreground = t.style.foreground ∧
    (start.replay (Event.read t.sink.text)).background = t.style.background ∧
    (∀ a, (start.replay (Event.read t.sink.text)).attributes.has a = true ↔
      t.style.attributes.has a = true ∧
        ¬ Style.Stranded config.plainStyle (ops.flatMap (Operation.acts config)) a) ∧
    (start.replay (Event.read t.sink.text) = t.style ↔
      ¬ Style.Stranded config.plainStyle (ops.flatMap (Operation.acts config)) .bold ∧
      ¬ Style.Stranded config.plainStyle (ops.flatMap (Operation.acts config)) .dim) := by
  obtain ⟨hstyle, hshown⟩ := did_openAndRun hplain hrun start
  rw [hstyle, hshown]
  have hfollows := Style.follows_actAll (Style.Follows.refl config.plainStyle)
    (ops.flatMap (Operation.acts config))
  refine ⟨hfollows.foreground, hfollows.background, Style.has_toldAll_tellsAll _ _, ?_⟩
  rw [Style.toldAll_tellsAll_eq_iff]
  constructor
  · intro h
    exact ⟨h .bold, h .dim⟩
  · rintro ⟨hbold, hdim⟩ a ha
    rcases Style.eq_bold_or_dim_of_stranded ha with rfl | rfl
    · exact hbold ha
    · exact hdim ha

/-- Whether an action ends well. -/
def endsWell {α : Type} (m : Action α) (t : Terminal) : Bool :=
  match m t with
  | .ok _ _ => true
  | .error _ _ => false

theorem exists_of_endsWell {α : Type} {m : Action α} {t : Terminal} (h : endsWell m t = true) :
    ∃ a u, m t = .ok a u := by
  unfold endsWell at h
  split at h
  · exact ⟨_, _, by assumption⟩
  · contradiction

/-- Whether an action ends well in a terminal that passes a test. -/
def endsIn {α : Type} (m : Action α) (t : Terminal) (test : Terminal → Bool) : Bool :=
  match m t with
  | .ok _ u => test u
  | .error _ _ => false

theorem exists_of_endsIn {α : Type} {m : Action α} {t : Terminal} {test : Terminal → Bool}
    (h : endsIn m t test = true) : ∃ a u, m t = .ok a u ∧ test u = true := by
  unfold endsIn at h
  split at h
  · exact ⟨_, _, by assumption, h⟩
  · contradiction

open scoped Text.Tables in
/-- Bold and dim are on and bold is turned off. Dim stays on record, and the
screen has neither. -/
theorem turning_off_bold_takes_dim_along :
    ∃ t, openAndRun [.turnOn (.single .bold ∪ .single .dim), .turnOff (.single .bold)]
        (blank Sink.unlimited ⟨80, 24⟩ Config.default) = .ok () t ∧
      t.style.attributes = .single .dim ∧
      (Style.plain.replay (Event.read t.sink.text)).attributes = .empty := by
  obtain ⟨_, t, hrun⟩ := @exists_of_endsWell _
    (openAndRun [.turnOn (.single .bold ∪ .single .dim), .turnOff (.single .bold)])
    (blank Sink.unlimited ⟨80, 24⟩ Config.default) (by decide +kernel)
  obtain ⟨hstyle, hshown⟩ := did_openAndRun (by decide) hrun Style.plain
  refine ⟨t, hrun, ?_, ?_⟩
  · rw [hstyle]
    rfl
  · rw [hshown]
    rfl

open scoped Text.Tables in
/-- A reset after that takes dim off the record too. -/
theorem a_reset_makes_up_for_the_stranded :
    ∃ t, openAndRun [.turnOn (.single .bold ∪ .single .dim), .turnOff (.single .bold),
        .write ['x'] .allow, .resetStyle] (blank Sink.unlimited ⟨80, 24⟩ Config.default) =
          .ok () t ∧
      Style.plain.replay (Event.read t.sink.text) = t.style := by
  obtain ⟨_, t, hrun⟩ := @exists_of_endsWell _
    (openAndRun [.turnOn (.single .bold ∪ .single .dim), .turnOff (.single .bold),
      .write ['x'] .allow, .resetStyle])
    (blank Sink.unlimited ⟨80, 24⟩ Config.default) (by decide +kernel)
  refine ⟨t, hrun, ?_⟩
  rw [(the_screen_shows_the_record_but_for_the_stranded Style.plain (by decide) hrun).2.2.2]
  have hnone : ∀ a, ¬ Style.Stranded Config.default.plainStyle
      [.turnOn (.single .bold ∪ .single .dim), .turnOff (.single .bold), .reset] a := by
    intro a
    simp [Style.stranded_cons, Style.not_stranded_nil, StyleAct.Strands, StyleAct.Mends]
  exact ⟨hnone .bold, hnone .dim⟩

end TerminalPanes.Terminal
