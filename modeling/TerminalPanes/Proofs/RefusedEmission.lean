-- What an operation leaves behind when the sink refuses the one emission that
-- it offers. Text and resets are recorded once they are taken, so nothing is
-- left and the operation can be done again. A colour, an attribute or a
-- position is recorded before it is offered, and stays on record.
import TerminalPanes.Proofs.TerminalEndings
import TerminalPanes.Text.Tables

namespace TerminalPanes

/-! ## Acts that tell one thing -/

namespace Attributes

theorem only?_single (a : Attribute) : (single a).only? = some a := by cases a <;> rfl

theorem toList_of_only? {set : Attributes} {a : Attribute} (h : set.only? = some a) :
    set.toList = [a] := by
  unfold only? at h
  split at h
  · rename_i b hb
    cases h
    exact hb
  · contradiction

theorem toList_sdiff (set other : Attributes) :
    (set \ other).toList = set.toList.filter fun a => !other.has a := by
  rw [toList, toList, List.filter_filter]
  exact List.filter_congr fun a _ => by rw [has_sdiff, Bool.and_comm]

theorem toList_inter (set other : Attributes) :
    (set ∩ other).toList = set.toList.filter other.has := by
  rw [toList, toList, List.filter_filter]
  exact List.filter_congr fun a _ => by rw [has_inter, Bool.and_comm]

theorem toList_eq_nil_iff {set : Attributes} : set.toList = [] ↔ ∀ a, set.has a = false := by
  simp [List.eq_nil_iff_forall_not_mem]

end Attributes

/-- Whether an act tells one thing at most: a colour or a single attribute. -/
def StyleAct.Single : StyleAct → Prop
  | .turnOn set | .turnOff set => ∃ a, set.only? = some a
  | .foreground _ | .background _ => True
  | .reset => False

theorem Instruction.single_act (i : Instruction) : i.act.Single := by
  cases i with
  | turnOn e => exact ⟨e.attribute, Attributes.only?_single _⟩
  | foreground c => trivial
  | background c => trivial

namespace Style

/-- Doing an act again changes nothing more. -/
theorem act_act (s : Style) (x : StyleAct) : (s.act x).act x = s.act x := by
  cases x with
  | turnOn set =>
    refine Style.ext (Attributes.ext fun a => ?_) rfl rfl
    simp [act, enable]
  | turnOff set =>
    refine Style.ext (Attributes.ext fun a => ?_) rfl rfl
    simp [act, disable]
  | foreground c => rfl
  | background c => rfl
  | reset => rfl

/-- An act tells nothing exactly when it changes nothing. -/
theorem tells_eq_nil_iff {s : Style} {x : StyleAct} (hx : x ≠ .reset) :
    s.tells x = [] ↔ s.act x = s := by
  cases x with
  | turnOn set =>
    simp only [tells, act, enable, turnedOn, List.map_eq_nil_iff, Attributes.toList_eq_nil_iff,
      Style.ext_iff, Attributes.ext_iff, Attributes.has_sdiff, Attributes.has_union, and_true]
    refine forall_congr' fun a => ?_
    cases set.has a <;> cases s.attributes.has a <;> decide
  | turnOff set =>
    simp only [tells, act, disable, turnedOff, List.map_eq_nil_iff, Attributes.toList_eq_nil_iff,
      Style.ext_iff, Attributes.ext_iff, Attributes.has_sdiff, Attributes.has_inter, and_true]
    refine forall_congr' fun a => ?_
    cases set.has a <;> cases s.attributes.has a <;> decide
  | foreground c => simp [tells, act, hasForeground, withForeground, Style.ext_iff, eq_comm]
  | background c => simp [tells, act, hasBackground, withBackground, Style.ext_iff, eq_comm]
  | reset => contradiction

theorem length_tells_le_one {x : StyleAct} (hx : x.Single) (s : Style) :
    (s.tells x).length ≤ 1 := by
  cases x with
  | turnOn set =>
    obtain ⟨a, ha⟩ := hx
    rw [tells, turnedOn, Attributes.toList_sdiff, Attributes.toList_of_only? ha, List.length_map]
    exact List.length_filter_le _ _
  | turnOff set =>
    obtain ⟨a, ha⟩ := hx
    rw [tells, turnedOff, Attributes.toList_inter, Attributes.toList_of_only? ha, List.length_map]
    exact List.length_filter_le _ _
  | foreground c =>
    rw [tells]
    split <;> simp
  | background c =>
    rw [tells]
    split <;> simp
  | reset => contradiction

end Style

/-! ## Positions -/

namespace History

/-- What goes in front and pushes out the last is all there is. -/
theorem eq_replicate_of_take_cons {p : Point} {entries : List Point}
    (h : (p :: entries).take entries.length = entries) :
    entries = List.replicate entries.length p := by
  induction entries generalizing p with
  | nil => rfl
  | cons q rest ih =>
    rw [List.length_cons, List.take_succ_cons, List.cons.injEq] at h
    obtain ⟨rfl, hrest⟩ := h
    rw [List.length_cons, List.replicate_succ, ← ih hrest]

/-- A new position leaves the history as it was only where the history is full
of that position. -/
theorem push_eq_self_iff {h : History} (hv : h.Valid) (p : Point) :
    h.push p = h ↔ h.index = 0 ∧ h.entries = List.replicate h.limit p := by
  obtain ⟨limit, entries, index⟩ := h
  have hlen : entries.length ≤ limit := hv.length_le
  simp only [push, History.mk.injEq, true_and]
  constructor
  · rintro ⟨hentries, hindex⟩
    have hfull : entries.length = limit := by
      have hl := congrArg List.length hentries
      rw [List.length_take, List.length_cons] at hl
      omega
    rw [← hfull] at hentries ⊢
    exact ⟨hindex.symm, eq_replicate_of_take_cons hentries⟩
  · rintro ⟨hindex, hentries⟩
    rw [hentries, ← List.replicate_succ, List.take_replicate, Nat.min_eq_left (Nat.le_succ limit)]
    exact ⟨rfl, hindex.symm⟩

theorem index_ne_of_back? {h h' : History} (hb : h.back? = some h') : h'.index ≠ h.index := by
  obtain ⟨-, rfl⟩ := back?_eq_some_iff.1 hb
  exact Nat.succ_ne_self _

theorem index_ne_of_forward? {h h' : History} (hf : h.forward? = some h') :
    h'.index ≠ h.index := by
  obtain ⟨hne, rfl⟩ := forward?_eq_some_iff.1 hf
  simp only
  omega

end History

namespace Terminal

variable {α β : Type}

/-! ## One emission over any sink -/

/-- The terminal over another sink. -/
def onSink (t : Terminal) (sink : Sink) : Terminal := { t with sink }

/-- Over every sink the action ends well and sends nothing. -/
def Silent (m : Action α) (t : Terminal) (a : α) (u : Terminal) : Prop :=
  ∀ sink, m (t.onSink sink) = .ok a (u.onSink sink)

/-- Over every sink the action offers one emission. Once it is taken the action
ends well in `taken`, and if it is refused the action fails in `refused`. -/
structure Offers (m : Action α) (t : Terminal) (e : Emission) (a : α)
    (refused taken : Terminal) : Prop where
  ok : ∀ {sink : Sink}, (sink.offer e).1 = true →
    m (t.onSink sink) = .ok a (taken.onSink (sink.offer e).2)
  error : ∀ {sink : Sink}, (sink.offer e).1 = false →
    m (t.onSink sink) = .error (.fault .sinkFull) (refused.onSink (sink.offer e).2)

theorem emit_of_taken {t : Terminal} {e : Emission} {s : Sink}
    (h : t.sink.offer e = (true, s)) : emit e t = .ok () (t.onSink s) := by
  rw [emit, h]
  rfl

theorem emit_of_refused {t : Terminal} {e : Emission} {s : Sink}
    (h : t.sink.offer e = (false, s)) :
    emit e t = .error (.fault .sinkFull) (t.onSink s) := by
  rw [emit, h]
  rfl

section

variable {m : Action α} {f : α → Action β} {t u v w : Terminal} {e : Emission} {a : α} {b : β}

namespace Silent

theorem pure (a : α) (t : Terminal) : Silent (Pure.pure a : Action α) t a t := fun _ => rfl

theorem bind (hm : Silent m t a u) (hf : Silent (f a) u b v) : Silent (m >>= f) t b v := by
  intro sink
  rw [bind_of_ok (hm sink), hf]

/-- What is looked at is the same over any sink. -/
theorem get_bind {f : Terminal → Action β} (hget : ∀ sink, f (t.onSink sink) = f t)
    (hf : Silent (f t) t b v) : Silent (get >>= f) t b v := by
  intro sink
  have h : (get : Action Terminal) (t.onSink sink) = .ok (t.onSink sink) (t.onSink sink) := rfl
  rw [bind_of_ok h, hget, hf]

theorem setStyle (style : Style) (t : Terminal) :
    Silent (setStyle style) t () { t with style } := fun _ => rfl

theorem setHistory (history : History) (t : Terminal) :
    Silent (setHistory history) t () { t with history } := fun _ => rfl

end Silent

namespace Offers

theorem emit (e : Emission) (t : Terminal) : Offers (emit e) t e () t t where
  ok h := emit_of_taken (Prod.ext h rfl)
  error h := emit_of_refused (Prod.ext h rfl)

/-- Nothing is sent before the emission. -/
theorem after (hm : Silent m t a u) (hf : Offers (f a) u e b v w) :
    Offers (m >>= f) t e b v w where
  ok h := by rw [bind_of_ok (hm _), hf.ok h]
  error h := by rw [bind_of_ok (hm _), hf.error h]

/-- Nothing is sent once the emission was taken. -/
theorem before (hm : Offers m t e a u v) (hf : Silent (f a) v b w) :
    Offers (m >>= f) t e b u w where
  ok h := by rw [bind_of_ok (hm.ok h), hf]
  error h := bind_of_error (hm.error h)

theorem get_bind {f : Terminal → Action β} (hget : ∀ sink, f (t.onSink sink) = f t)
    (hf : Offers (f t) t e b v w) : Offers (get >>= f) t e b v w where
  ok := by
    intro sink h
    have hok : (get : Action Terminal) (t.onSink sink) = .ok (t.onSink sink) (t.onSink sink) := rfl
    rw [bind_of_ok hok, hget, hf.ok h]
  error := by
    intro sink h
    have hok : (get : Action Terminal) (t.onSink sink) = .ok (t.onSink sink) (t.onSink sink) := rfl
    rw [bind_of_ok hok, hget, hf.error h]

end Offers

end

namespace Silent

variable {t : Terminal} {cell : Point}

theorem currentCell (hc : t.history.current? = some cell) : Silent currentCell t cell t := by
  refine get_bind (fun _ => rfl) ?_
  rw [hc]
  exact pure cell t

theorem position (hc : t.history.current? = some cell) :
    Silent position t (cell - ⟨1, 1⟩) t := bind (currentCell hc) (pure _ t)

theorem remainingColumns (hc : t.history.current? = some cell) :
    Silent remainingColumns t (t.roomAt cell) t := by
  refine get_bind (fun _ => rfl) ?_
  unfold roomAt
  dsimp only
  split
  · exact pure none t
  · exact bind (currentCell hc) (pure _ t)

theorem advance (hc : t.history.current? = some cell) (columns : Nat) :
    Silent (advance columns) t () { t with history := t.history.advanced columns } := by
  refine get_bind (fun _ => rfl) ?_
  rw [advance?_eq_advanced hc]
  exact setHistory _ t

end Silent

namespace Offers

variable {t : Terminal} {cell : Point}

theorem write [Text.Measure] (hc : t.history.current? = some cell) (text : Text) (wrap : Wrap) :
    Offers (write text wrap) t (.text (t.visibleAt cell text wrap)) () t
      { t with history := t.history.advanced (t.visibleAt cell text wrap).width } :=
  after (Silent.remainingColumns hc) (before (emit _ t) (Silent.advance hc _))

theorem resetStyle (t : Terminal) :
    Offers resetStyle t (.control .reset) () t { t with style := Style.plain } :=
  before (emit _ t) (Silent.setStyle _ t)

theorem moveTo (p : Point) (t : Terminal) :
    Offers (moveTo p) t (.control (.cursorTo ⟨cellOf p.x, cellOf p.y⟩)) ()
      { t with history := t.history.push ⟨cellOf p.x, cellOf p.y⟩ }
      { t with history := t.history.push ⟨cellOf p.x, cellOf p.y⟩ } :=
  get_bind (fun _ => rfl) (after (Silent.setHistory _ t) (emit _ _))

theorem stepTo {step : History → Option History} {history : History}
    (h : step t.history = some history) (hc : history.current? = some cell) :
    Offers (stepTo step) t (.control (.cursorTo cell)) true { t with history }
      { t with history } := by
  refine get_bind (fun _ => rfl) ?_
  rw [h]
  have hcell : Silent Terminal.currentCell { t with history } cell _ := Silent.currentCell hc
  exact after (Silent.setHistory history t) (after hcell (before (emit _ _) (Silent.pure true _)))

end Offers

/-! ## The operations -/

/-- How an operation that offers one emission at most keeps its record. -/
inductive Recording where
  /-- What is to be recorded is recorded once the emission was taken. -/
  | afterwards
  /-- The style is changed first. -/
  | style
  /-- A new position goes into the history first. -/
  | position
  /-- The history is stepped through first. -/
  | step
  deriving DecidableEq, Repr

/-- The recording of an operation, unless it may offer more than one emission. -/
def Operation.recording? : Operation → Option Recording
  | .write .. | .writeRaw _ | .resetStyle | .hideCursor | .showCursor | .erase _ => some .afterwards
  | .apply _ | .setForeground _ | .setBackground _ => some .style
  | .turnOn set | .turnOff set => set.only?.map fun _ => .style
  | .moveTo _ | .moveBy _ | .moveToward .. => some .position
  | .stepBack | .stepForward => some .step
  | .writeMarkup _ | .writeSections .. | .resetColors | .clearScreen | .restore | .resize _ => none

/-- What is left on record when an action offers an emission in `t` and it is
refused, and what would be left if it were taken. -/
def Recording.Leaves (m : Action α) (t : Terminal) (e : Emission) (a : α)
    (refused taken : Terminal) : Recording → Prop
  | .afterwards => refused = t
  | .style => refused = taken ∧ taken.style ≠ t.style ∧ Silent m taken a taken
  | .position => refused = taken ∧ taken.style = t.style ∧
    ∃ cell, e = .control (.cursorTo cell) ∧ taken.history = t.history.push cell
  | .step => refused = taken ∧ taken.history.index ≠ t.history.index

/-- Over any sink the action sends nothing and changes nothing, or offers one
emission and leaves what such a recording leaves. -/
def Records (r : Recording) (m : Action α) (t : Terminal) : Prop :=
  (∃ a, Silent m t a t) ∨
    ∃ e a refused taken, Offers m t e a refused taken ∧ r.Leaves m t e a refused taken

theorem sendRenditions_map {ι : Type} (code : ι → Nat) (is : List ι) :
    sendRenditions (is.map code) = (is.map fun i => Sequence.rendition (code i)).forM send := by
  induction is with
  | nil => rfl
  | cons i rest ih =>
    change (send (.rendition (code i)) >>= fun _ => sendRenditions (rest.map code)) = _
    rw [ih]
    rfl

theorem sendUnless (has : Bool) (style : Style) (q : Sequence) (t : Terminal) :
    (if !has then setStyle style >>= fun _ => send q else pure () : Action Unit) t =
      (if has then [] else [q]).forM send (if has then t else { t with style }) := by
  cases has with
  | true => rfl
  | false =>
    change (send q) { t with style } = (send q >>= fun _ => pure ()) { t with style }
    rw [bind_pure_unit]

/-- Every act but a reset changes the style first and sends what is new then. -/
theorem perform_eq {x : StyleAct} (hx : x ≠ .reset) (t : Terminal) :
    perform x t = (t.style.tells x).forM send { t with style := t.style.act x } := by
  cases x with
  | turnOn set =>
    rw [Style.tells, ← sendRenditions_map]
    rfl
  | turnOff set =>
    rw [Style.tells, ← sendRenditions_map]
    rfl
  | foreground c =>
    refine (sendUnless (t.style.hasForeground c) (t.style.withForeground c) _ t).trans ?_
    by_cases hc : t.style.hasForeground c = true
    · rw [Style.tells, Style.act, if_pos hc, if_pos hc, Style.withForeground_of_has hc]
    · rw [Style.tells, Style.act, if_neg hc, if_neg hc]
  | background c =>
    refine (sendUnless (t.style.hasBackground c) (t.style.withBackground c) _ t).trans ?_
    by_cases hc : t.style.hasBackground c = true
    · rw [Style.tells, Style.act, if_pos hc, if_pos hc, Style.withBackground_of_has hc]
    · rw [Style.tells, Style.act, if_neg hc, if_neg hc]
  | reset => contradiction

namespace Records

variable {r : Recording} {m : Action α} {t : Terminal}

/-- What an action answers does not matter to the record. -/
theorem answering (g : α → β) (h : Records r m t) : Records r (m >>= fun a => pure (g a)) t := by
  rcases h with ⟨a, ha⟩ | ⟨e, a, refused, taken, hoffers, hleaves⟩
  · exact .inl ⟨g a, ha.bind (Silent.pure _ t)⟩
  · refine .inr ⟨e, g a, refused, taken, hoffers.before (Silent.pure _ taken), ?_⟩
    cases r with
    | afterwards => exact hleaves
    | style => exact ⟨hleaves.1, hleaves.2.1, hleaves.2.2.bind (Silent.pure _ taken)⟩
    | position => exact hleaves
    | step => exact hleaves

theorem of_emit (e : Emission) (t : Terminal) : Records .afterwards (emit e) t :=
  .inr ⟨e, (), t, t, Offers.emit e t, rfl⟩

theorem write [Text.Measure] (hv : t.history.Valid) (text : Text) (wrap : Wrap) :
    Records .afterwards (write text wrap) t := by
  obtain ⟨cell, hc⟩ := History.current?_of_lt hv.index_lt
  exact .inr ⟨_, _, _, _, Offers.write hc text wrap, rfl⟩

theorem resetStyle (t : Terminal) : Records .afterwards resetStyle t :=
  .inr ⟨_, _, _, _, Offers.resetStyle t, rfl⟩

theorem moveTo (p : Point) (t : Terminal) : Records .position (moveTo p) t :=
  .inr ⟨_, _, _, _, Offers.moveTo p t, rfl, rfl, _, rfl, rfl⟩

theorem moveBy (hv : t.history.Valid) (delta : Point) : Records .position (moveBy delta) t := by
  obtain ⟨cell, hc⟩ := History.current?_of_lt hv.index_lt
  exact .inr ⟨_, _, _, _, (Offers.moveTo _ t).after (Silent.position hc), rfl, rfl, _, rfl, rfl⟩

theorem stepTo {step : History → Option History}
    (hvalid : ∀ {h}, step t.history = some h → h.Valid)
    (hindex : ∀ {h}, step t.history = some h → h.index ≠ t.history.index) :
    Records .step (stepTo step) t := by
  cases hs : step t.history with
  | none =>
    refine .inl ⟨false, Silent.get_bind (fun _ => rfl) ?_⟩
    rw [hs]
    exact Silent.pure false t
  | some history =>
    obtain ⟨cell, hc⟩ := History.current?_of_lt (hvalid hs).index_lt
    exact .inr ⟨_, _, _, _, Offers.stepTo hs hc, rfl, hindex hs⟩

/-- An act that changes nothing is not told. -/
theorem silent_perform {x : StyleAct} (hx : x ≠ .reset) (h : t.style.act x = t.style) :
    Silent (perform x) t () t := by
  intro sink
  have htells : (t.onSink sink).style.tells x = [] := (Style.tells_eq_nil_iff hx).2 h
  rw [perform_eq hx, htells]
  change EStateM.Result.ok () { t.onSink sink with style := t.style.act x } = _
  rw [h]
  rfl

theorem offers_perform {x : StyleAct} (hx : x ≠ .reset) {q : Sequence}
    (h : t.style.tells x = [q]) :
    Offers (perform x) t (.control q) () { t with style := t.style.act x }
      { t with style := t.style.act x } := by
  have heq : ∀ sink, perform x (t.onSink sink) =
      send q ({ t with style := t.style.act x }.onSink sink) := by
    intro sink
    have htells : (t.onSink sink).style.tells x = [q] := h
    rw [perform_eq hx, htells]
    exact congrFun (@bind_pure_unit _ _ _ (send q)) _
  have hemit := Offers.emit (.control q) { t with style := t.style.act x }
  refine ⟨fun hs => ?_, fun hs => ?_⟩
  · rw [heq]
    exact hemit.ok hs
  · rw [heq]
    exact hemit.error hs

theorem perform {x : StyleAct} (hx : x.Single) (t : Terminal) :
    Records .style (perform x) t := by
  have hreset : x ≠ .reset := by
    rintro rfl
    exact hx
  have hone := Style.length_tells_le_one hx t.style
  rcases htells : t.style.tells x with _ | ⟨q, rest⟩
  · exact .inl ⟨(), silent_perform hreset ((Style.tells_eq_nil_iff hreset).1 htells)⟩
  · obtain rfl : rest = [] := by
      rw [htells, List.length_cons] at hone
      exact List.length_eq_zero_iff.1 (by omega)
    refine .inr ⟨_, _, _, _, offers_perform hreset htells, rfl, ?_, ?_⟩
    · intro hsame
      rw [(Style.tells_eq_nil_iff hreset).2 hsame] at htells
      contradiction
    · exact silent_perform hreset (Style.act_act t.style x)

/-- Every operation that offers one emission at most keeps its record as told. -/
theorem run [Text.Measure] (hv : t.history.Valid) {op : Operation} (hop : op.recording? = some r) :
    Records r op.run t := by
  cases op with
  | write text wrap =>
    cases hop
    exact (write hv text wrap).answering fun _ => none
  | writeRaw text =>
    cases hop
    exact (of_emit _ t).answering fun _ => none
  | apply i =>
    cases hop
    have h := (perform i.single_act t).answering fun _ => (none : Option Bool)
    rw [← apply_eq_perform] at h
    exact h
  | turnOn set =>
    obtain ⟨a, ha, rfl⟩ := Option.map_eq_some_iff.1 hop
    exact (@perform (.turnOn set) ⟨a, ha⟩ t).answering fun _ => none
  | turnOff set =>
    obtain ⟨a, ha, rfl⟩ := Option.map_eq_some_iff.1 hop
    exact (@perform (.turnOff set) ⟨a, ha⟩ t).answering fun _ => none
  | resetStyle =>
    cases hop
    exact (resetStyle t).answering fun _ => none
  | setForeground c =>
    cases hop
    exact (@perform (.foreground c) trivial t).answering fun _ => none
  | setBackground c =>
    cases hop
    exact (@perform (.background c) trivial t).answering fun _ => none
  | moveTo p =>
    cases hop
    exact (moveTo p t).answering fun _ => none
  | stepBack =>
    cases hop
    exact (stepTo (History.stable_valid.back hv) History.index_ne_of_back?).answering some
  | stepForward =>
    cases hop
    exact (stepTo (History.stable_valid.forward hv) History.index_ne_of_forward?).answering some
  | moveBy delta =>
    cases hop
    exact (moveBy hv delta).answering fun _ => none
  | moveToward d count =>
    cases hop
    exact (moveBy hv _).answering fun _ => none
  | hideCursor =>
    cases hop
    exact (of_emit _ t).answering fun _ => none
  | showCursor =>
    cases hop
    exact (of_emit _ t).answering fun _ => none
  | erase what =>
    cases hop
    exact (of_emit _ t).answering fun _ => none
  | writeMarkup text => cases hop
  | writeSections sections wrap => cases hop
  | resetColors => cases hop
  | clearScreen => cases hop
  | restore => cases hop
  | resize size => cases hop

end Records

/-! ## What is left -/

/-- When the sink refuses the emission that an operation offers, the operation fails
with the fault of the sink. What is recorded afterwards is as before, and the
operation can be done again as for the first time. Anything else is on record as
if the emission had been taken, so that the record is as before only where a position
is put into a history that is full of it, and a style is not sent when it is asked
for again. -/
theorem a_refused_emission_is_on_record [Text.Measure] {t : Terminal} (ht : t.Reachable)
    {op : Operation}
    {r : Recording} (hop : op.recording? = some r) {e : Emission} {answer : Option Bool}
    {taken : Terminal} (hsends : op.run (t.onSink .unlimited) = .ok answer taken)
    (he : taken.sink.emissions = [e]) {sink : Sink} (hrefused : (sink.offer e).1 = false) :
    ∃ u, op.run (t.onSink sink) = .error (.fault .sinkFull) u ∧ u.sink = (sink.offer e).2 ∧
      (r = .afterwards →
        u.style = t.style ∧ u.history = t.history ∧
        ∀ later, op.run (u.onSink later) = op.run (t.onSink later)) ∧
      (r ≠ .afterwards →
        u.style = taken.style ∧ u.history = taken.history ∧
        ∀ later, op.run (u.onSink later) = op.run (taken.onSink later)) ∧
      (r = .style → ∀ later, op.run (u.onSink later) = .ok answer (u.onSink later)) ∧
      (u.style = t.style ∧ u.history = t.history ↔
        r = .afterwards ∨ r = .position ∧ ∃ cell, e = .control (.cursorTo cell) ∧
          t.history.index = 0 ∧ t.history.entries = List.replicate t.history.limit cell) := by
  rcases Records.run ht.valid hop with ⟨a, hsilent⟩ | ⟨e', a, u, v, hoffers, hleaves⟩
  · -- nothing is sent, so there is no emission to refuse
    rw [hsilent] at hsends
    cases hsends
    contradiction
  · have htaken := hoffers.ok (congrArg Prod.fst (Sink.offer_of_unlimited (s := .unlimited) rfl e'))
    rw [htaken, Sink.offer_of_unlimited rfl] at hsends
    cases hsends
    obtain rfl : e' = e := List.singleton_inj.1 he
    refine ⟨u.onSink (sink.offer e').2, hoffers.error hrefused, rfl, ?_⟩
    cases r with
    | afterwards =>
      obtain rfl : u = t := hleaves
      exact ⟨fun _ => ⟨rfl, rfl, fun _ => rfl⟩, by simp, by simp, by simp [onSink]⟩
    | style =>
      obtain ⟨rfl, hstyle, hagain⟩ := hleaves
      refine ⟨by simp, fun _ => ⟨rfl, rfl, fun _ => rfl⟩, fun _ => hagain, ?_⟩
      simp [onSink, hstyle]
    | position =>
      obtain ⟨rfl, hstyle, cell, rfl, hpush⟩ := hleaves
      refine ⟨by simp, fun _ => ⟨rfl, rfl, fun _ => rfl⟩, by simp, ?_⟩
      simp [onSink, hstyle, hpush, History.push_eq_self_iff ht.valid]
    | step =>
      obtain ⟨rfl, hindex⟩ := hleaves
      refine ⟨by simp, fun _ => ⟨rfl, rfl, fun _ => rfl⟩, by simp, ?_⟩
      have hhistory : u.history ≠ t.history := fun h => hindex (congrArg History.index h)
      simp [onSink, hhistory]

open scoped Text.Tables in
/-- A sink is full after the opening and takes no byte of a new colour. The colour is
on record all the same, and asked for again it is not sent. Before the refusal it
would have been. -/
theorem a_colour_that_was_not_taken_is_on_record :
    ∃ t u v, opening (blank (Sink.ofLimit (some 36)) ⟨80, 24⟩ Config.default) = .ok () t ∧
      (Operation.setForeground ⟨0, 255, 0⟩).run t = .error (.fault .sinkFull) u ∧
      u.sink = t.sink ∧ t.style.foreground = some Color.white ∧
      u.style.foreground = some ⟨0, 255, 0⟩ ∧
      (Operation.setForeground ⟨0, 255, 0⟩).run (u.onSink .unlimited) =
        .ok none (u.onSink .unlimited) ∧
      (Operation.setForeground ⟨0, 255, 0⟩).run (t.onSink .unlimited) = .ok none v ∧
      v.sink.emissions = [.control (.foreground ⟨0, 255, 0⟩)] :=
  ⟨_, _, _, rfl, rfl, rfl, rfl, rfl, rfl, rfl, rfl⟩

open scoped Text.Tables in
/-- The same sink, and any sink after it. -/
theorem a_refused_colour_is_sent_to_no_later_sink :
    ∃ t u, opening (blank (Sink.ofLimit (some 36)) ⟨80, 24⟩ Config.default) = .ok () t ∧
      (Operation.setForeground ⟨0, 255, 0⟩).run t = .error (.fault .sinkFull) u ∧
      ∀ later, (Operation.setForeground ⟨0, 255, 0⟩).run (u.onSink later) =
        .ok none (u.onSink later) := by
  have hopened : opening (blank (Sink.ofLimit (some 36)) ⟨80, 24⟩ Config.default) = .ok () _ := rfl
  obtain ⟨u, hfails, -, -, -, hagain, -⟩ :=
    @a_refused_emission_is_on_record _ _ (.opened hopened) (.setForeground ⟨0, 255, 0⟩) .style rfl
      (.control (.foreground ⟨0, 255, 0⟩)) none _ rfl rfl ⟨_, [], some 0⟩ rfl
  exact ⟨_, u, hopened, hfails, hagain rfl⟩

end Terminal

end TerminalPanes
