-- How each terminal action ends. On a sink that takes everything an action has
-- one end, which is told here: what was sent, and what is on record then. On
-- any other sink it ends the same way or with an error.
import TerminalPanes.Proofs.StyleActs
import TerminalPanes.Proofs.TerminalReach
import Mathlib.Data.List.Forall2

namespace TerminalPanes

/-! ## The sink -/

namespace Sink

/-- The sink once an emission was taken in full. -/
def take (s : Sink) (e : Emission) : Sink :=
  { s with sent := e :: s.sent, room := s.room.map (· - e.bytes.length) }

def takeAll (s : Sink) (es : List Emission) : Sink := es.foldl take s

/-- The characters of all emissions taken in full. -/
def text (s : Sink) : Text := s.emissions.flatMap Emission.chars

theorem takeAll_append (s : Sink) (before after : List Emission) :
    s.takeAll (before ++ after) = (s.takeAll before).takeAll after := List.foldl_append

theorem offer_of_unlimited {s : Sink} (h : s.room = none) (e : Emission) :
    s.offer e = (true, s.take e) := by
  simp only [offer, roomAfter?, take, h, Option.map_none]

/-- Only an emission that was taken in full leaves the sink as if it were. -/
theorem eq_take_of_offer {s s' : Sink} {e : Emission} (h : s.offer e = (true, s')) :
    s' = s.take e := by
  unfold offer at h
  split at h
  · rename_i room hroom
    cases h
    unfold roomAfter? at hroom
    unfold take
    split at hroom
    · rename_i hnone
      cases hroom
      rw [hnone]
      rfl
    · rename_i n hsome
      split at hroom
      · cases hroom
        rw [hsome]
        rfl
      · contradiction
  · cases h

@[simp] theorem emissions_takeAll (s : Sink) (es : List Emission) :
    (s.takeAll es).emissions = s.emissions ++ es := by
  induction es generalizing s with
  | nil => exact (List.append_nil _).symm
  | cons e rest ih =>
    change ((s.take e).takeAll rest).emissions = _
    rw [ih]
    simp [emissions, take]

@[simp] theorem text_takeAll (s : Sink) (es : List Emission) :
    (s.takeAll es).text = s.text ++ es.flatMap Emission.chars := by
  rw [text, emissions_takeAll, List.flatMap_append]
  rfl

theorem room_takeAll {s : Sink} (h : s.room = none) (es : List Emission) :
    (s.takeAll es).room = none := by
  induction es generalizing s with
  | nil => exact h
  | cons e rest ih => exact ih (by simp [take, h])

end Sink

namespace Terminal

/-- The terminal once emissions were taken in full and the record was changed. -/
def became (t : Terminal) (es : List Emission) (style : Style) (history : History) : Terminal :=
  { t with sink := t.sink.takeAll es, style, history }

section

variable (t : Terminal) (es : List Emission) (style : Style) (history : History)

@[simp] theorem became_sink : (t.became es style history).sink = t.sink.takeAll es := rfl

@[simp] theorem became_style : (t.became es style history).style = style := rfl

@[simp] theorem became_history : (t.became es style history).history = history := rfl

@[simp] theorem became_config : (t.became es style history).config = t.config := rfl

@[simp] theorem became_became (es' : List Emission) (style' : Style) (history' : History) :
    (t.became es style history).became es' style' history' =
      t.became (es ++ es') style' history' := by
  simp only [became, Sink.takeAll_append]

end

/-! ## Endings -/

variable {α β : Type}

/-- On a sink that takes everything the action ends with `a` and `u`, and
however the sink is, it ends well in no other way. -/
structure Ends (m : Action α) (t : Terminal) (a : α) (u : Terminal) : Prop where
  unlimited : t.sink.room = none → m t = .ok a u ∧ u.sink.room = none
  only : ∀ {b : α} {v : Terminal}, m t = .ok b v → b = a ∧ v = u

namespace Ends

theorem pure (a : α) (t : Terminal) : Ends (Pure.pure a : Action α) t a t where
  unlimited h := ⟨rfl, h⟩
  only h := by
    cases h
    exact ⟨rfl, rfl⟩

theorem bind {m : Action α} {f : α → Action β} {t u v : Terminal} {a : α} {b : β}
    (hm : Ends m t a u) (hf : Ends (f a) u b v) : Ends (m >>= f) t b v where
  unlimited h := by
    obtain ⟨hok, hu⟩ := hm.unlimited h
    rw [bind_of_ok hok]
    exact hf.unlimited hu
  only h := by
    obtain ⟨c, w, hok, h⟩ := of_bind_ok h
    obtain ⟨rfl, rfl⟩ := hm.only hok
    exact hf.only h

theorem seq {m : Action Unit} {next : Action β} {t u v : Terminal} {b : β}
    (hm : Ends m t () u) (hn : Ends next u b v) : Ends (m >>= fun _ => next) t b v := bind hm hn

theorem get_bind {f : Terminal → Action β} {t v : Terminal} {b : β} (h : Ends (f t) t b v) :
    Ends (get >>= f) t b v :=
  have hget : Ends (get : Action Terminal) t t t := by
    refine ⟨fun h => ⟨rfl, h⟩, ?_⟩
    intro b v h
    cases h
    exact ⟨rfl, rfl⟩
  bind hget h

theorem setStyle (style : Style) (t : Terminal) :
    Ends (setStyle style) t () (t.became [] style t.history) where
  unlimited h := ⟨rfl, h⟩
  only h := by
    cases h
    exact ⟨rfl, rfl⟩

theorem setHistory (history : History) (t : Terminal) :
    Ends (setHistory history) t () (t.became [] t.style history) where
  unlimited h := ⟨rfl, h⟩
  only h := by
    cases h
    exact ⟨rfl, rfl⟩

theorem emit (e : Emission) (t : Terminal) :
    Ends (emit e) t () (t.became [e] t.style t.history) where
  unlimited h := by
    refine ⟨?_, Sink.room_takeAll h [e]⟩
    simp only [Terminal.emit, Sink.offer_of_unlimited h]
    rfl
  only h := by
    unfold Terminal.emit at h
    split at h
    · rename_i sink hoffer
      cases h
      rw [Sink.eq_take_of_offer hoffer]
      exact ⟨rfl, rfl⟩
    · contradiction

theorem send (s : Sequence) (t : Terminal) :
    Ends (send s) t () (t.became [.control s] t.style t.history) := emit _ t

end Ends

/-! ## Acts on the style -/

/-- Does an act on the style. -/
def perform : StyleAct → Action Unit
  | .turnOn set => turnOn set
  | .turnOff set => turnOff set
  | .foreground c => setForeground c
  | .background c => setBackground c
  | .reset => resetStyle

theorem apply_eq_perform (i : Instruction) : apply i = perform i.act := by
  cases i <;> rfl

theorem forM_apply (instructions : List Instruction) :
    instructions.forM apply = (instructions.map Instruction.act).forM perform := by
  induction instructions with
  | nil => rfl
  | cons i rest ih =>
    change (apply i >>= fun _ => rest.forM apply) = _
    rw [ih, apply_eq_perform]
    rfl

/-- The terminal after an act on the style. -/
def performed (t : Terminal) (x : StyleAct) : Terminal :=
  t.became ((t.style.tells x).map .control) (t.style.act x) t.history

namespace Ends

theorem sendRenditions (codes : List Nat) (t : Terminal) :
    Ends (sendRenditions codes) t ()
      (t.became (codes.map fun code => .control (.rendition code)) t.style t.history) := by
  induction codes generalizing t with
  | nil => exact pure () t
  | cons code rest ih =>
    have h := seq (send (.rendition code) t) (ih _)
    rw [became_became] at h
    exact h

theorem perform (x : StyleAct) (t : Terminal) : Ends (perform x) t () (t.performed x) := by
  cases x with
  | turnOn set =>
    have h := seq (setStyle (t.style.enable set) t)
      (sendRenditions ((t.style.turnedOn set).toList.map Attribute.onCode) _)
    rw [became_became, List.map_map] at h
    simp only [performed, Style.tells, List.map_map]
    exact get_bind h
  | turnOff set =>
    have h := seq (setStyle (t.style.disable set) t)
      (sendRenditions ((t.style.turnedOff set).toList.map Attribute.offCode) _)
    rw [became_became, List.map_map] at h
    simp only [performed, Style.tells, List.map_map]
    exact get_bind h
  | foreground c =>
    refine get_bind ?_
    by_cases hc : t.style.hasForeground c = true
    · simp only [performed, Style.tells, Style.act, Style.withForeground_of_has hc, hc, if_true]
      exact pure () t
    · simp only [performed, Style.tells, Style.act, hc]
      exact seq (setStyle (t.style.withForeground c) t) (send (.foreground c) _)
  | background c =>
    refine get_bind ?_
    by_cases hc : t.style.hasBackground c = true
    · simp only [performed, Style.tells, Style.act, Style.withBackground_of_has hc, hc, if_true]
      exact pure () t
    · simp only [performed, Style.tells, Style.act, hc]
      exact seq (setStyle (t.style.withBackground c) t) (send (.background c) _)
  | reset => exact seq (send .reset t) (setStyle Style.plain _)

theorem performAll (acts : List StyleAct) (t : Terminal) :
    Ends (acts.forM Terminal.perform) t ()
      (t.became ((t.style.tellsAll acts).map .control) (t.style.actAll acts) t.history) := by
  induction acts generalizing t with
  | nil => exact pure () t
  | cons x rest ih =>
    have h := seq (perform x t) (ih _)
    rw [performed, became_became] at h
    rw [Style.tellsAll, List.map_append]
    exact h

end Ends

end Terminal

/-! ## Closing acts -/

namespace Config

/-- The acts that put the chosen colours back. -/
def colorActs (c : Config) : List StyleAct := [.background c.background, .foreground c.foreground]

/-- The acts that end every section. -/
def closingActs (c : Config) : List StyleAct := .reset :: c.colorActs

/-- No attributes and the chosen colours. -/
def plainStyle (c : Config) : Style := ⟨Attributes.empty, some c.foreground, some c.background⟩

theorem actAll_closingActs (c : Config) (s : Style) : s.actAll c.closingActs = c.plainStyle := rfl

/-- The closing acts are always told in full. -/
theorem tellsAll_closingActs (c : Config) (s : Style) :
    s.tellsAll c.closingActs = [.reset, .background c.background, .foreground c.foreground] := by
  simp [closingActs, colorActs, Style.tellsAll, Style.tells, Style.act, Style.plain,
    Style.hasBackground, Style.hasForeground, Style.withBackground]

end Config

namespace Section

/-- The acts that a section performs. -/
def acts (c : Config) (s : Section) : List StyleAct :=
  s.instructions.map Instruction.act ++ c.closingActs

/-- What is sent for a section from a style on record. -/
def emissions (c : Config) (start : Style) (s : Section) : List Emission :=
  (start.tellsAll (s.instructions.map Instruction.act)).map .control ++
    .text s.content :: (start.tellsAll c.closingActs).map .control

/-- What is sent for sections one after another. All but the first begin in the
plain style. -/
def emissionsOfAll (c : Config) (start : Style) : List Section → List Emission
  | [] => []
  | s :: rest => s.emissions c start ++ emissionsOfAll c c.plainStyle rest

/-- Every section leaves the plain style behind. -/
theorem actAll_acts (c : Config) (start : Style) (s : Section) :
    start.actAll (s.acts c) = c.plainStyle := by
  rw [acts, Style.actAll_append, Config.actAll_closingActs]

theorem stylings_emissions (c : Config) (start : Style) (s : Section) :
    Emission.stylings (s.emissions c start) = start.tellsAll (s.acts c) := by
  rw [emissions, Emission.stylings_append, Emission.stylings_text_cons]
  rw [Style.stylings_tellsAll, Style.stylings_tellsAll, acts, Style.tellsAll_append]
  simp only [Config.tellsAll_closingActs]

theorem stylings_emissionsOfAll (c : Config) (start : Style) (sections : List Section) :
    Emission.stylings (emissionsOfAll c start sections) =
      start.tellsAll (sections.flatMap (acts c)) := by
  induction sections generalizing start with
  | nil => rfl
  | cons s rest ih =>
    rw [emissionsOfAll, Emission.stylings_append, stylings_emissions, ih c.plainStyle]
    rw [List.flatMap_cons, Style.tellsAll_append, actAll_acts]

theorem plain_of_mem_emissionsOfAll {c : Config} {start : Style} {sections : List Section}
    (h : ∀ s ∈ sections, Event.escape ∉ s.content) {e : Emission}
    (he : e ∈ emissionsOfAll c start sections) : e.Plain := by
  induction sections generalizing start with
  | nil => contradiction
  | cons s rest ih =>
    obtain ⟨hs, hrest⟩ := List.forall_mem_cons.1 h
    simp only [emissionsOfAll, emissions, List.mem_append, List.mem_cons] at he
    rcases he with (he | rfl | he) | he
    · exact Emission.plain_of_mem_map_control he
    · exact hs
    · exact Emission.plain_of_mem_map_control he
    · exact ih hrest he

end Section

/-- The history with its current position moved to the right. -/
def History.advanced (h : History) (columns : Nat) : History :=
  { h with
    entries := h.entries.modify h.index fun p => p + ⟨min (columns : Int) Decimal.wordMax, 0⟩ }

namespace Terminal

/-! ## Writing -/

/-- The columns from a cell to the right edge, its own included, if there is
an edge. -/
def roomAt (t : Terminal) (cell : Point) : Option Nat :=
  if t.size.cols = 0 then none else some (t.size.cols - cell.x + 1).toNat

/-- The part of a text that is written at a cell. -/
def visibleAt [Text.Measure] (t : Terminal) (cell : Point) (text : Text) (wrap : Wrap) : Text :=
  match wrap, t.roomAt cell with
  | .clip, some room => text.clip room
  | _, _ => text

theorem visibleAt_allow [Text.Measure] (t : Terminal) (cell : Point) (text : Text) :
    t.visibleAt cell text .allow = text := rfl

@[simp] theorem visibleAt_became [Text.Measure] (t : Terminal) (es : List Emission) (style : Style)
    (history : History) (cell : Point) (text : Text) (wrap : Wrap) :
    (t.became es style history).visibleAt cell text wrap = t.visibleAt cell text wrap := rfl

theorem visibleAt_isPrefix [Text.Measure] (t : Terminal) (cell : Point) (text : Text)
    (wrap : Wrap) :
    t.visibleAt cell text wrap <+: text := by
  unfold visibleAt
  split
  · rename_i room _
    obtain ⟨rest, hrest⟩ := Text.clip_append text room
    exact ⟨rest, hrest.symm⟩
  · exact List.prefix_rfl

theorem advance?_eq_advanced {h : History} {cell : Point} (hc : h.current? = some cell)
    (columns : Nat) :
    h.advance? (min (columns : Int) Decimal.wordMax) = some (h.advanced columns) :=
  if_pos (List.getElem?_eq_some_iff.1 hc).1

theorem current?_advanced {h : History} {cell : Point} (hc : h.current? = some cell)
    (columns : Nat) :
    (h.advanced columns).current? = some (cell + ⟨min (columns : Int) Decimal.wordMax, 0⟩) := by
  unfold History.current? History.advanced at *
  rw [List.getElem?_modify_eq, hc]
  rfl

theorem valid_advanced {h : History} {cell : Point} (hv : h.Valid) (hc : h.current? = some cell)
    (columns : Nat) : (h.advanced columns).Valid :=
  History.stable_valid.advance hv (by unfold Decimal.wordMax; omega) (advance?_eq_advanced hc _)

namespace Ends

variable {t : Terminal} {cell : Point}

theorem currentCell (hc : t.history.current? = some cell) : Ends currentCell t cell t := by
  refine get_bind ?_
  rw [hc]
  exact pure cell t

theorem remainingColumns (hc : t.history.current? = some cell) :
    Ends remainingColumns t (t.roomAt cell) t := by
  refine get_bind ?_
  unfold roomAt
  dsimp only
  split
  · exact pure none t
  · exact bind (currentCell hc) (pure _ t)

theorem advance (hc : t.history.current? = some cell) (columns : Nat) :
    Ends (advance columns) t () (t.became [] t.style (t.history.advanced columns)) := by
  refine get_bind ?_
  rw [advance?_eq_advanced hc]
  exact setHistory _ t

theorem write [Text.Measure] (hc : t.history.current? = some cell) (text : Text) (wrap : Wrap) :
    Ends (write text wrap) t ()
      (t.became [.text (t.visibleAt cell text wrap)] t.style
        (t.history.advanced (t.visibleAt cell text wrap).width)) := by
  have hu := emit (.text (t.visibleAt cell text wrap)) t
  have hc' : (t.became [.text (t.visibleAt cell text wrap)] t.style t.history).history.current? =
      some cell := hc
  exact bind (remainingColumns hc) (seq hu (advance hc' _))

theorem resetColors (t : Terminal) :
    Ends resetColors t ()
      (t.became ((t.style.tellsAll t.config.colorActs).map .control)
        (t.style.actAll t.config.colorActs) t.history) := by
  have h : Ends Terminal.resetColors t () ((t.performed (.background t.config.background)).performed
      (.foreground t.config.foreground)) :=
    get_bind (seq (perform (.background t.config.background) t)
      (get_bind (perform (.foreground t.config.foreground) _)))
  simp only [performed, became_became, ← List.map_append] at h
  simp only [Config.colorActs, Style.tellsAll, List.append_nil]
  exact h

/-- What ends every section. -/
theorem closing (t : Terminal) :
    Ends (resetStyle >>= fun _ => Terminal.resetColors) t ()
      (t.became ((t.style.tellsAll t.config.closingActs).map .control) t.config.plainStyle
        t.history) := by
  have h := seq (perform .reset t) (resetColors _)
  simp only [performed, became_became, ← List.map_append] at h
  exact h

theorem writeSection [Text.Measure] (hc : t.history.current? = some cell) (s : Section)
    (wrap : Wrap) :
    Ends (writeSection s wrap) t ()
      (t.became ({ s with content := t.visibleAt cell s.content wrap }.emissions t.config t.style)
        t.config.plainStyle (t.history.advanced (t.visibleAt cell s.content wrap).width)) := by
  have hacts := performAll (s.instructions.map Instruction.act) t
  rw [← forM_apply] at hacts
  have hc' : (t.became ((t.style.tellsAll (s.instructions.map Instruction.act)).map .control)
      (t.style.actAll (s.instructions.map Instruction.act)) t.history).history.current? =
        some cell := hc
  have h := seq hacts (seq (write hc' s.content wrap) (closing _))
  simp only [became_became, became_config, became_history, became_style, visibleAt_became,
    Config.tellsAll_closingActs, List.append_assoc] at h
  simp only [Section.emissions, Config.tellsAll_closingActs]
  exact h

/-! ## Moving -/

theorem moveTo (p : Point) (t : Terminal) :
    Ends (moveTo p) t ()
      (t.became [.control (.cursorTo ⟨cellOf p.x, cellOf p.y⟩)] t.style
        (t.history.push ⟨cellOf p.x, cellOf p.y⟩)) :=
  get_bind (seq (setHistory _ t) (send _ _))

theorem stepTo_none {step : History → Option History} (h : step t.history = none) :
    Ends (stepTo step) t false t := by
  refine get_bind ?_
  rw [h]
  exact pure false t

theorem stepTo_some {step : History → Option History} {history : History}
    (h : step t.history = some history) (hc : history.current? = some cell) :
    Ends (stepTo step) t true (t.became [.control (.cursorTo cell)] t.style history) := by
  refine get_bind ?_
  rw [h]
  have hcell : (t.became [] t.style history).history.current? = some cell := hc
  exact seq (setHistory history t) (bind (currentCell hcell) (seq (send _ _) (pure true _)))

end Ends

/-! ## Sections one after another -/

/-- What is left of a section where it is written: its instructions and a part
of its content, all of it where text is allowed to wrap. -/
structure CutOf (wrap : Wrap) (s cut : Section) : Prop where
  instructions : cut.instructions = s.instructions
  content : cut.content <+: s.content
  whole : wrap = .allow → cut = s

theorem cutOf_visibleAt [Text.Measure] (t : Terminal) (cell : Point) (s : Section) (wrap : Wrap) :
    CutOf wrap s { s with content := t.visibleAt cell s.content wrap } := by
  refine ⟨rfl, visibleAt_isPrefix t cell s.content wrap, ?_⟩
  rintro rfl
  rw [visibleAt_allow]

/-- What is left of sections that are written one after another from a cell on. -/
def cutFrom [Text.Measure] (t : Terminal) (cell : Point) (wrap : Wrap) : List Section → List Section
  | [] => []
  | s :: rest =>
    let visible := t.visibleAt cell s.content wrap
    { s with content := visible } ::
      cutFrom t (cell + ⟨min (visible.width : Int) Decimal.wordMax, 0⟩) wrap rest

theorem cutOf_cutFrom [Text.Measure] (t : Terminal) (cell : Point) (wrap : Wrap)
    (sections : List Section) :
    List.Forall₂ (CutOf wrap) sections (t.cutFrom cell wrap sections) := by
  induction sections generalizing cell with
  | nil => exact .nil
  | cons s rest ih => exact .cons (cutOf_visibleAt t cell s wrap) (ih _)

@[simp] theorem cutFrom_became [Text.Measure] (t : Terminal) (es : List Emission) (style : Style)
    (history : History) (cell : Point) (wrap : Wrap) (sections : List Section) :
    (t.became es style history).cutFrom cell wrap sections = t.cutFrom cell wrap sections := by
  induction sections generalizing cell with
  | nil => rfl
  | cons s rest ih => exact congrArg (List.cons _) (ih _)

/-- The cell behind sections that are written one after another from a cell on. -/
def cellAfter [Text.Measure] (t : Terminal) (cell : Point) (wrap : Wrap) : List Section → Point
  | [] => cell
  | s :: rest =>
    let visible := t.visibleAt cell s.content wrap
    cellAfter t (cell + ⟨min (visible.width : Int) Decimal.wordMax, 0⟩) wrap rest

@[simp] theorem cellAfter_became [Text.Measure] (t : Terminal) (es : List Emission) (style : Style)
    (history : History) (cell : Point) (wrap : Wrap) (sections : List Section) :
    (t.became es style history).cellAfter cell wrap sections = t.cellAfter cell wrap sections := by
  induction sections generalizing cell with
  | nil => rfl
  | cons s rest ih => exact ih _

/-- Sections are written as what is left of them where they are written, and the record
ends behind them. -/
theorem ends_writeSections_at [Text.Measure] {t : Terminal} {cell : Point} (hv : t.history.Valid)
    (hc : t.history.current? = some cell) (sections : List Section) (wrap : Wrap) :
    ∃ h, h.Valid ∧ h.current? = some (t.cellAfter cell wrap sections) ∧
      Ends (writeSections sections wrap) t ()
        (t.became (Section.emissionsOfAll t.config t.style (t.cutFrom cell wrap sections))
          (t.style.actAll (sections.flatMap (Section.acts t.config))) h) := by
  induction sections generalizing t cell with
  | nil => exact ⟨t.history, hv, hc, Ends.pure () t⟩
  | cons s rest ih =>
    have hfirst := Ends.writeSection hc s wrap
    have hadvanced := valid_advanced hv hc (t.visibleAt cell s.content wrap).width
    have hcell := current?_advanced hc (t.visibleAt cell s.content wrap).width
    obtain ⟨h, hh, hend, hrest⟩ := @ih (t.became _ _ _) _ hadvanced hcell
    rw [cellAfter_became] at hend
    refine ⟨h, hh, hend, ?_⟩
    have hboth := Ends.seq hfirst hrest
    simp only [became_became, became_config, became_style, cutFrom_became] at hboth
    rw [List.flatMap_cons, Style.actAll_append, Section.actAll_acts]
    exact hboth

theorem ends_writeSections [Text.Measure] {t : Terminal} {cell : Point} (hv : t.history.Valid)
    (hc : t.history.current? = some cell) (sections : List Section) (wrap : Wrap) :
    ∃ h, h.Valid ∧ Ends (writeSections sections wrap) t ()
      (t.became (Section.emissionsOfAll t.config t.style (t.cutFrom cell wrap sections))
        (t.style.actAll (sections.flatMap (Section.acts t.config))) h) := by
  obtain ⟨h, hh, -, hends⟩ := ends_writeSections_at hv hc sections wrap
  exact ⟨h, hh, hends⟩

end Terminal

end TerminalPanes
