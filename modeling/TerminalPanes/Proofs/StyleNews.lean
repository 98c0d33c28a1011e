-- No style is told twice. All that is sent for the style is news: a colour
-- other than the one in force, an attribute that is off, the off code of one
-- that is on. So between two resets no command in the stream repeats what an
-- earlier one said and none has taken back since.
import TerminalPanes.Proofs.StyleRecord
import TerminalPanes.Text.Tables

namespace TerminalPanes

/-! ## Commands for the style -/

/-- Where a colour goes: on the characters or behind them. -/
inductive Ground where
  | fore
  | back
  deriving DecidableEq, Repr

/-- The numbers of the command that sets a colour. -/
def Ground.codes (g : Ground) (c : Color) : List Int :=
  [match g with
    | .fore => 38
    | .back => 48,
   2, c.red, c.green, c.blue]

namespace Attribute

/-- The numbers of the command that turns the attribute on. -/
def on (a : Attribute) : List Int := [(a.onCode : Int)]

/-- The numbers of the command that turns the attribute off. -/
def off (a : Attribute) : List Int := [(a.offCode : Int)]

end Attribute

/-- The numbers of the command that resets the style. -/
def Style.clearing : List Int := [0]

namespace Event

/-- The numbers of the event, if it is a command for the style. -/
def codes? : Event → Option (List Int)
  | .command parameters 'm' => Style.numbers? parameters
  | _ => none

/-- The commands for the style in a stream, by their numbers. -/
def renditions (stream : Text) : List (List Int) := (read stream).filterMap codes?

end Event

namespace Sequence

/-- The numbers that a sequence for the style is sent with. -/
def codes : Sequence → List Int
  | .reset => Style.clearing
  | .rendition code => [(code : Int)]
  | .foreground c => Ground.fore.codes c
  | .background c => Ground.back.codes c
  | _ => []

theorem codes?_ofSequence {q : Sequence} (h : q.final = 'm') :
    Event.codes? (Event.ofSequence q) = some q.codes := by
  cases q with
  | reset => rfl
  | rendition code => exact Style.numbers?_write code
  | foreground c => exact Style.numbers?_color 38 c
  | background c => exact Style.numbers?_color 48 c
  | erase what => cases what <;> exact absurd h (by decide)
  | _ => exact absurd h (by simp [final])

theorem codes?_ofSequence_of_ne {q : Sequence} (h : q.final ≠ 'm') :
    Event.codes? (Event.ofSequence q) = none := by
  unfold Event.ofSequence
  generalize q.final = final at h
  unfold Event.codes?
  split
  · rename_i heq
    exact absurd (Event.command.inj heq).2 h
  · rfl

end Sequence

namespace Event

theorem filterMap_codes?_shown (t : Text) : (t.map shown).filterMap codes? = [] := by
  rw [List.filterMap_eq_nil_iff]
  intro e he
  obtain ⟨c, -, rfl⟩ := List.mem_map.1 he
  rfl

/-- Plain emissions bring the commands that their sequences are sent with. -/
theorem renditions_emissions {es : List Emission} (h : ∀ e ∈ es, e.Plain) :
    renditions (es.flatMap Emission.chars) = (Emission.stylings es).map Sequence.codes := by
  induction es with
  | nil => rfl
  | cons e rest ih =>
    obtain ⟨he, hrest⟩ := List.forall_mem_cons.1 h
    have hshown : ∀ t : Text, escape ∉ t →
        renditions (t ++ rest.flatMap Emission.chars) =
          (Emission.stylings rest).map Sequence.codes := by
      intro t ht
      rw [renditions, read_append_of_not_mem ht, List.filterMap_append, filterMap_codes?_shown]
      exact ih hrest
    rw [List.flatMap_cons]
    cases e with
    | control q =>
      have hread : renditions (q.write ++ rest.flatMap Emission.chars) =
          (codes? (ofSequence q)).toList ++ renditions (rest.flatMap Emission.chars) := by
        rw [renditions, read_write_append, List.filterMap_cons]
        cases codes? (ofSequence q) <;> rfl
      refine hread.trans ?_
      rw [ih hrest]
      by_cases hq : q.final = 'm'
      · rw [Sequence.codes?_ofSequence hq]
        simp [Emission.stylings, Emission.styling?, hq]
      · rw [Sequence.codes?_ofSequence_of_ne hq]
        simp [Emission.stylings, Emission.styling?, hq]
    | text t => exact hshown t he
    | raw t => exact hshown t he

end Event

/-! ## News -/

namespace Attribute

theorem on_ne_clearing (a : Attribute) : a.on ≠ Style.clearing := by cases a <;> decide

theorem off_ne_clearing (a : Attribute) : a.off ≠ Style.clearing := by cases a <;> decide

theorem eq_of_on_eq {a b : Attribute} (h : a.on = b.on) : a = b := by
  cases a <;> cases b <;> first | rfl | contradiction

theorem on_ne_off (a b : Attribute) : a.on ≠ b.off := by cases a <;> cases b <;> decide

/-- Only bold and dim are turned off by one and the same command. -/
theorem eq_of_off_eq {a b : Attribute} (hbold : a ≠ .bold) (hdim : a ≠ .dim)
    (h : b.off = a.off) : b = a := by
  cases a <;> cases b <;> first | rfl | contradiction

end Attribute

namespace Ground

theorem eq_of_codes_eq {g h : Ground} {c d : Color} (heq : g.codes c = h.codes d) :
    g = h ∧ c = d := by
  cases g <;> cases h <;> cases c <;> cases d <;> simp_all [codes]

theorem codes_ne_on (g : Ground) (c : Color) (a : Attribute) : g.codes c ≠ a.on := by
  simp [codes, Attribute.on]

theorem codes_ne_off (g : Ground) (c : Color) (a : Attribute) : g.codes c ≠ a.off := by
  simp [codes, Attribute.off]

theorem codes_ne_clearing (g : Ground) (c : Color) : g.codes c ≠ Style.clearing := by
  simp [codes, Style.clearing]

end Ground

namespace Style

/-- The colour in force on a ground. -/
def colorOn (s : Style) : Ground → Option Color
  | .fore => s.foreground
  | .back => s.background

def withColor (s : Style) (c : Color) : Ground → Style
  | .fore => s.withForeground c
  | .back => s.withBackground c

theorem colorOn_withColor (s : Style) (c : Color) (g : Ground) :
    (s.withColor c g).colorOn g = some c := by
  cases g <;> rfl

theorem colorOn_withColor_of_ne (s : Style) (c : Color) {g h : Ground} (hne : g ≠ h) :
    (s.withColor c g).colorOn h = s.colorOn h := by
  cases g <;> cases h <;> first | rfl | contradiction

theorem attributes_withColor (s : Style) (c : Color) (g : Ground) :
    (s.withColor c g).attributes = s.attributes := by
  cases g <;> rfl

theorem colorOn_enable (s : Style) (set : Attributes) (g : Ground) :
    (s.enable set).colorOn g = s.colorOn g := by
  cases g <;> rfl

theorem colorOn_disable (s : Style) (set : Attributes) (g : Ground) :
    (s.disable set).colorOn g = s.colorOn g := by
  cases g <;> rfl

theorem has_enable_single (s : Style) (a b : Attribute) :
    (s.enable (Attributes.single a)).attributes.has b = (s.attributes.has b || a == b) := by
  simp [enable, Attributes.single]

theorem has_disable_single (s : Style) (a b : Attribute) :
    (s.disable (Attributes.single a)).attributes.has b = (s.attributes.has b && !(a == b)) := by
  simp [disable, Attributes.single]

/-- The command says something new to the style in force, and what is in force
then. An off code is news while one of its attributes is on. -/
inductive News : Style → List Int → Style → Prop where
  | reset (s : Style) : News s clearing plain
  | on {s : Style} {a : Attribute} (h : s.attributes.has a = false) :
    News s a.on (s.enable (Attributes.single a))
  | off {s : Style} {a : Attribute} (h : s.attributes.has a = true) :
    News s a.off (s.disable (Attributes.single a))
  | color {s : Style} {g : Ground} {c : Color} (h : s.colorOn g ≠ some c) :
    News s (g.codes c) (s.withColor c g)

namespace News

variable {s t : Style} {q : List Int} {a : Attribute} {g : Ground} {c : Color}

theorem of_color (h : News s (g.codes c) t) : s.colorOn g ≠ some c ∧ t.colorOn g = some c := by
  generalize hq : g.codes c = q at h
  cases h with
  | reset => exact absurd hq (g.codes_ne_clearing c)
  | on _ => exact absurd hq (g.codes_ne_on c _)
  | off _ => exact absurd hq (g.codes_ne_off c _)
  | color hnew =>
    obtain ⟨rfl, rfl⟩ := Ground.eq_of_codes_eq hq
    exact ⟨hnew, colorOn_withColor s c g⟩

theorem of_on (h : News s a.on t) : s.attributes.has a = false ∧ t.attributes.has a = true := by
  generalize hq : a.on = q at h
  cases h with
  | reset => exact absurd hq a.on_ne_clearing
  | on hnew =>
    obtain rfl := Attribute.eq_of_on_eq hq
    exact ⟨hnew, by simp [has_enable_single]⟩
  | off _ => exact absurd hq (a.on_ne_off _)
  | color _ => exact absurd hq.symm (Ground.codes_ne_on _ _ a)

theorem of_off (h : News s a.off t) : ∃ b, b.off = a.off ∧ s.attributes.has b = true ∧
    t = s.disable (Attributes.single b) := by
  generalize hq : a.off = q at h
  cases h with
  | reset => exact absurd hq a.off_ne_clearing
  | on _ => exact absurd hq.symm (Attribute.on_ne_off _ a)
  | @off b hnew => exact ⟨b, rfl, hnew, rfl⟩
  | color _ => exact absurd hq.symm (Ground.codes_ne_off _ _ a)

theorem of_clearing (h : News s clearing t) : t = plain := by
  generalize hq : clearing = q at h
  cases h with
  | reset => rfl
  | on _ => exact absurd hq.symm (Attribute.on_ne_clearing _)
  | off _ => exact absurd hq.symm (Attribute.off_ne_clearing _)
  | color _ => exact absurd hq.symm (Ground.codes_ne_clearing _ _)

/-- A colour stays in force until there is another one or a reset. -/
theorem colorOn_eq (h : News s q t) (hreset : q ≠ clearing) (hcolor : ∀ c, q ≠ g.codes c) :
    t.colorOn g = s.colorOn g := by
  cases h with
  | reset => contradiction
  | on _ => exact colorOn_enable s _ g
  | off _ => exact colorOn_disable s _ g
  | @color g' c _ =>
    refine colorOn_withColor_of_ne s c ?_
    rintro rfl
    exact hcolor c rfl

/-- Only its on code turns an attribute on. -/
theorem has_before (h : News s q t) (hon : q ≠ a.on) (ha : t.attributes.has a = true) :
    s.attributes.has a = true := by
  cases h with
  | reset => simp [plain] at ha
  | @on b _ =>
    have hne : b ≠ a := fun hb => hon (by rw [hb])
    simpa [has_enable_single, hne] using ha
  | off _ =>
    rw [has_disable_single, Bool.and_eq_true] at ha
    exact ha.1
  | color _ => rwa [attributes_withColor] at ha

/-- Only its off code and a reset turn an attribute off. -/
theorem has_after (h : News s q t) (hreset : q ≠ clearing) (hoff : q ≠ a.off)
    (ha : s.attributes.has a = true) : t.attributes.has a = true := by
  cases h with
  | reset => contradiction
  | on _ => simp [has_enable_single, ha]
  | @off b _ =>
    have hne : b ≠ a := fun hb => hoff (by rw [hb])
    simp [has_disable_single, ha, hne]
  | color _ => rwa [attributes_withColor]

end News

/-! ## All that is told is news -/

/-- Each command is news after the ones before it. -/
def AllNews : Style → List (List Int) → Style → Prop
  | s, [], u => s = u
  | s, q :: rest, u => ∃ t, News s q t ∧ AllNews t rest u

theorem allNews_append {s u : Style} {before after : List (List Int)} :
    AllNews s (before ++ after) u ↔ ∃ t, AllNews s before t ∧ AllNews t after u := by
  induction before generalizing s with
  | nil => simp [AllNews]
  | cons q rest ih =>
    simp only [List.cons_append, AllNews, ih]
    constructor
    · rintro ⟨m, hq, t, hrest, hafter⟩
      exact ⟨t, ⟨m, hq, hrest⟩, hafter⟩
    · rintro ⟨t, ⟨m, hq, hrest⟩, hafter⟩
      exact ⟨m, hq, t, hrest, hafter⟩

/-- Attributes that are told one by one are each news, for none of them is touched before
it is told. -/
theorem allNews_each {command : Attribute → List Int} {turn : Style → Attributes → Style}
    {fresh : Bool}
    (hnews : ∀ {s a}, s.attributes.has a = fresh → News s (command a) (turn s (.single a)))
    (hother : ∀ {s a b}, a ≠ b → (turn s (.single a)).attributes.has b = s.attributes.has b)
    (hnone : ∀ s, turn s (Attributes.ofTest fun b => decide (b ∈ [])) = s)
    (hcons : ∀ s a rest,
      turn (turn s (.single a)) (Attributes.ofTest fun b => decide (b ∈ rest)) =
        turn s (Attributes.ofTest fun b => decide (b ∈ a :: rest)))
    {attributes : List Attribute} (hnodup : attributes.Nodup) {s : Style}
    (hfresh : ∀ a ∈ attributes, s.attributes.has a = fresh) :
    s.AllNews (attributes.map command)
      (turn s (Attributes.ofTest fun b => decide (b ∈ attributes))) := by
  induction attributes generalizing s with
  | nil => exact (hnone s).symm
  | cons a rest ih =>
    obtain ⟨hnot, hnodup⟩ := List.nodup_cons.1 hnodup
    obtain ⟨ha, hrest⟩ := List.forall_mem_cons.1 hfresh
    refine ⟨_, hnews ha, ?_⟩
    rw [← hcons]
    refine ih hnodup fun b hb => ?_
    have hne : a ≠ b := fun hab => hnot (hab ▸ hb)
    rw [hother hne]
    exact hrest b hb

theorem allNews_on {attributes : List Attribute} (hnodup : attributes.Nodup) {s : Style}
    (hoff : ∀ a ∈ attributes, s.attributes.has a = false) :
    s.AllNews (attributes.map Attribute.on)
      (s.enable (Attributes.ofTest fun a => decide (a ∈ attributes))) := by
  refine allNews_each .on (fun hne => ?_) (fun s => ?_) (fun s a rest => ?_) hnodup hoff
  · simp [has_enable_single, hne]
  · exact Style.ext (Attributes.ext fun a => by simp [enable]) rfl rfl
  · refine Style.ext (Attributes.ext fun b => ?_) rfl rfl
    rw [Bool.eq_iff_iff]
    simp [enable, Attributes.single, or_assoc, eq_comm (a := a)]

theorem allNews_off {attributes : List Attribute} (hnodup : attributes.Nodup) {s : Style}
    (hon : ∀ a ∈ attributes, s.attributes.has a = true) :
    s.AllNews (attributes.map Attribute.off)
      (s.disable (Attributes.ofTest fun a => decide (a ∈ attributes))) := by
  refine allNews_each .off (fun hne => ?_) (fun s => ?_) (fun s a rest => ?_) hnodup hon
  · simp [has_disable_single, hne]
  · exact Style.ext (Attributes.ext fun a => by simp [disable]) rfl rfl
  · refine Style.ext (Attributes.ext fun b => ?_) rfl rfl
    rw [Bool.eq_iff_iff]
    simp [disable, Attributes.single, and_assoc, eq_comm (a := a)]

theorem nodup_toList (set : Attributes) : set.toList.Nodup :=
  List.Pairwise.filter _ (by decide)

/-- What is told for an act is news, and it brings about what the act records. -/
theorem allNews_tells (s : Style) (x : StyleAct) :
    s.AllNews ((s.tells x).map Sequence.codes) (s.act x) := by
  cases x with
  | turnOn set =>
    have hact : s.act (.turnOn set) =
        s.enable (Attributes.ofTest fun a => decide (a ∈ (s.turnedOn set).toList)) := by
      refine Style.ext (Attributes.ext fun a => ?_) rfl rfl
      simp only [act, enable, Attributes.has_union, Attributes.has_ofTest, mem_turnedOn]
      cases s.attributes.has a <;> simp
    rw [hact, tells, List.map_map]
    exact allNews_on (nodup_toList _) fun a ha => (mem_turnedOn.1 ha).2
  | turnOff set =>
    have hact : s.act (.turnOff set) =
        s.disable (Attributes.ofTest fun a => decide (a ∈ (s.turnedOff set).toList)) := by
      refine Style.ext (Attributes.ext fun a => ?_) rfl rfl
      simp only [act, disable, Attributes.has_sdiff, Attributes.has_ofTest, mem_turnedOff]
      cases s.attributes.has a <;> simp
    rw [hact, tells, List.map_map]
    exact allNews_off (nodup_toList _) fun a ha => (mem_turnedOff.1 ha).2
  | foreground c =>
    by_cases hc : s.hasForeground c = true
    · rw [act, withForeground_of_has hc, tells, if_pos hc]
      rfl
    · rw [tells, if_neg hc]
      have hnew : s.colorOn .fore ≠ some c := by simpa [hasForeground, colorOn] using hc
      exact ⟨_, .color hnew, rfl⟩
  | background c =>
    by_cases hc : s.hasBackground c = true
    · rw [act, withBackground_of_has hc, tells, if_pos hc]
      rfl
    · rw [tells, if_neg hc]
      have hnew : s.colorOn .back ≠ some c := by simpa [hasBackground, colorOn] using hc
      exact ⟨_, .color hnew, rfl⟩
  | reset => exact ⟨plain, .reset s, rfl⟩

theorem allNews_tellsAll (s : Style) (acts : List StyleAct) :
    s.AllNews ((s.tellsAll acts).map Sequence.codes) (s.actAll acts) := by
  induction acts generalizing s with
  | nil => rfl
  | cons x rest ih =>
    rw [tellsAll, List.map_append, allNews_append]
    exact ⟨s.act x, allNews_tells s x, ih (s.act x)⟩

/-! ## What stays in force -/

namespace AllNews

variable {s t u : Style} {stretch : List (List Int)}

theorem colorOn_eq {g : Ground} (h : AllNews s stretch t) (hreset : clearing ∉ stretch)
    (hcolor : ∀ c, g.codes c ∉ stretch) : t.colorOn g = s.colorOn g := by
  induction stretch generalizing s with
  | nil => rw [h]
  | cons q rest ih =>
    obtain ⟨m, hq, hrest⟩ := h
    rw [List.mem_cons, not_or] at hreset
    have hnot : ∀ c, q ≠ g.codes c := fun c hc => hcolor c (hc ▸ List.mem_cons_self)
    rw [ih hrest hreset.2 fun c hc => hcolor c (List.mem_cons_of_mem q hc)]
    exact hq.colorOn_eq (Ne.symm hreset.1) hnot

theorem has_before {a : Attribute} (h : AllNews s stretch t) (hon : a.on ∉ stretch)
    (ha : t.attributes.has a = true) : s.attributes.has a = true := by
  induction stretch generalizing s with
  | nil => rwa [h]
  | cons q rest ih =>
    obtain ⟨m, hq, hrest⟩ := h
    rw [List.mem_cons, not_or] at hon
    exact hq.has_before (Ne.symm hon.1) (ih hrest hon.2)

theorem has_after {a : Attribute} (h : AllNews s stretch t) (hreset : clearing ∉ stretch)
    (hoff : a.off ∉ stretch) (ha : s.attributes.has a = true) : t.attributes.has a = true := by
  induction stretch generalizing s with
  | nil => rwa [← h]
  | cons q rest ih =>
    obtain ⟨m, hq, hrest⟩ := h
    rw [List.mem_cons, not_or] at hreset hoff
    exact ih hrest hreset.2 hoff.2 (hq.has_after (Ne.symm hreset.1) (Ne.symm hoff.1) ha)

/-- Two commands in a stretch, and the styles in force around them. -/
theorem between {before middle after : List (List Int)} {first second : List Int}
    (h : AllNews s (before ++ first :: (middle ++ second :: after)) u) :
    ∃ t₁ t₂ t₃ t₄, News t₁ first t₂ ∧ AllNews t₂ middle t₃ ∧ News t₃ second t₄ := by
  obtain ⟨t₁, -, t₂, hfirst, hrest⟩ := allNews_append.1 h
  obtain ⟨t₃, hmiddle, t₄, hsecond, -⟩ := allNews_append.1 hrest
  exact ⟨t₁, t₂, t₃, t₄, hfirst, hmiddle, hsecond⟩

end AllNews

/-- In a stretch without a reset, a colour is followed by another one for its
ground. An attribute is turned on again only after it was turned off, and one
that has its off code to itself is turned off again only after it was turned
on. -/
structure Spare (stretch : List (List Int)) : Prop where
  color : ∀ {before middle after : List (List Int)} {g : Ground} {c d : Color},
    stretch = before ++ g.codes c :: (middle ++ g.codes d :: after) →
      (∀ e, g.codes e ∉ middle) → c ≠ d
  on : ∀ {before middle after : List (List Int)} {a : Attribute},
    stretch = before ++ a.on :: (middle ++ a.on :: after) → a.off ∈ middle
  off : ∀ {before middle after : List (List Int)} {a : Attribute}, a ≠ .bold → a ≠ .dim →
    stretch = before ++ a.off :: (middle ++ a.off :: after) → a.on ∈ middle

theorem not_mem_middle {q first second : List Int} {before middle after : List (List Int)}
    (h : q ∉ before ++ first :: (middle ++ second :: after)) : q ∉ middle := by
  simp only [List.mem_append, List.mem_cons, not_or] at h
  exact h.2.2.1

theorem AllNews.spare {s u : Style} {stretch : List (List Int)} (h : AllNews s stretch u)
    (hreset : clearing ∉ stretch) : Spare stretch where
  color := by
    rintro before middle after g c d rfl hnone rfl
    obtain ⟨t₁, t₂, t₃, t₄, hfirst, hmiddle, hsecond⟩ := h.between
    -- the first colour is still in force when it comes again
    have hkept := hmiddle.colorOn_eq (not_mem_middle hreset) hnone
    exact hsecond.of_color.1 (hkept.trans hfirst.of_color.2)
  on := by
    rintro before middle after a rfl
    obtain ⟨t₁, t₂, t₃, t₄, hfirst, hmiddle, hsecond⟩ := h.between
    by_contra hoff
    have hkept := hmiddle.has_after (not_mem_middle hreset) hoff hfirst.of_on.2
    rw [hsecond.of_on.1] at hkept
    contradiction
  off := by
    rintro before middle after a hbold hdim rfl
    obtain ⟨t₁, t₂, t₃, t₄, hfirst, hmiddle, hsecond⟩ := h.between
    obtain ⟨b, hb, -, rfl⟩ := hfirst.of_off
    obtain ⟨b', hb', hon, -⟩ := hsecond.of_off
    obtain rfl := Attribute.eq_of_off_eq hbold hdim hb
    obtain rfl := Attribute.eq_of_off_eq hbold hdim hb'
    by_contra hnone
    have hkept := hmiddle.has_before hnone hon
    simp [has_disable_single] at hkept

/-- An attribute that is on was turned on after the last reset. -/
theorem AllNews.exists_on {u : Style} {told : List (List Int)} {a : Attribute}
    (h : AllNews plain told u) (ha : u.attributes.has a = true) (hreset : clearing ∈ told) :
    ∃ earlier since, told = earlier ++ clearing :: since ∧ clearing ∉ since ∧ a.on ∈ since := by
  obtain ⟨since, earlier, hsplit, hlast⟩ :=
    List.eq_append_cons_of_mem (List.mem_reverse.2 hreset)
  have htold : told = earlier.reverse ++ clearing :: since.reverse := by
    rw [← List.reverse_reverse told, hsplit]
    simp
  refine ⟨_, _, htold, by simpa using hlast, ?_⟩
  rw [htold] at h
  obtain ⟨t, -, t', hclear, hsince⟩ := allNews_append.1 h
  by_contra hon
  rw [hclear.of_clearing] at hsince
  have hbefore := hsince.has_before hon ha
  simp [plain] at hbefore

end Style

/-! ## The stream -/

namespace Terminal

/-- After the opening and any operations that ended well, with no sequences of
the caller's own, the stream says nothing for the style twice between two
resets. And an off code is sent only when an attribute that it turns off was
turned on after the last reset. -/
theorem nothing_is_told_twice [Text.Measure] {limit : Option Nat} {size : Size} {config : Config}
    {ops : List Operation} {t : Terminal} (hplain : ∀ op ∈ ops, op.Plain)
    (hrun : openAndRun ops (blank (Sink.ofLimit limit) size config) = .ok () t) :
    (∀ before stretch after : List (List Int),
      Event.renditions t.sink.text = before ++ stretch ++ after → Style.clearing ∉ stretch →
        Style.Spare stretch) ∧
    ∀ (before after : List (List Int)) (a : Attribute),
      Event.renditions t.sink.text = before ++ a.off :: after →
        ∃ (earlier since : List (List Int)) (b : Attribute),
          before = earlier ++ Style.clearing :: since ∧ Style.clearing ∉ since ∧
            b.off = a.off ∧ b.on ∈ since := by
  obtain ⟨es, htext, hes, htold, -⟩ := sent_openAndRun hplain hrun
  have hnews := Style.allNews_tellsAll Style.plain
    (config.closingActs ++ ops.flatMap (Operation.acts config))
  rw [← htold, ← Event.renditions_emissions hes, ← htext] at hnews
  refine ⟨?_, ?_⟩
  · intro before stretch after hsplit hreset
    rw [hsplit, List.append_assoc] at hnews
    obtain ⟨s, -, hrest⟩ := Style.allNews_append.1 hnews
    obtain ⟨u, hstretch, -⟩ := Style.allNews_append.1 hrest
    exact hstretch.spare hreset
  · intro before after a hsplit
    -- the opening begins with a reset, so there is one before every off code
    have hfirst : Style.clearing ∈ before := by
      rw [htext, Event.renditions_emissions hes, htold, Style.tellsAll_append,
        Config.tellsAll_closingActs] at hsplit
      cases before with
      | nil => exact absurd (List.cons.inj hsplit).1.symm a.off_ne_clearing
      | cons q rest => exact (List.cons.inj hsplit).1 ▸ List.mem_cons_self
    rw [hsplit] at hnews
    obtain ⟨s, hbefore, u, hoff, -⟩ := Style.allNews_append.1 hnews
    obtain ⟨b, hb, hon, -⟩ := hoff.of_off
    obtain ⟨earlier, since, hsince, hlast, hmem⟩ := hbefore.exists_on hon hfirst
    exact ⟨earlier, since, b, hsince, hlast, hb, hmem⟩

open scoped Text.Tables in
/-- Bold and dim go off together, each with the code that they share. Bold is
turned on again after that, and a colour that is asked for twice is sent
once. -/
theorem bold_again_after_two_off_codes :
    ∃ t, openAndRun [.turnOn (.single .bold ∪ .single .dim),
      .turnOff (.single .bold ∪ .single .dim),
        .turnOn (.single .bold), .setForeground ⟨1, 2, 3⟩, .write ['x'] .allow,
        .setForeground ⟨1, 2, 3⟩, .restore] (blank Sink.unlimited ⟨80, 24⟩ Config.default) =
          .ok () t ∧
      Style.Spare [[1], [2], [22], [22], [1], [38, 2, 1, 2, 3]] ∧
      Event.renditions t.sink.text = [[0], [48, 2, 0, 0, 0], [38, 2, 255, 255, 255]] ++
        [[1], [2], [22], [22], [1], [38, 2, 1, 2, 3]] ++ [[0]] := by
  obtain ⟨_, t, hrun, htest⟩ := @exists_of_endsIn _
    (openAndRun [.turnOn (.single .bold ∪ .single .dim), .turnOff (.single .bold ∪ .single .dim),
      .turnOn (.single .bold), .setForeground ⟨1, 2, 3⟩, .write ['x'] .allow,
      .setForeground ⟨1, 2, 3⟩, .restore])
    (blank Sink.unlimited ⟨80, 24⟩ Config.default)
    (fun t => Event.renditions t.sink.text == [[0], [48, 2, 0, 0, 0], [38, 2, 255, 255, 255]] ++
      [[1], [2], [22], [22], [1], [38, 2, 1, 2, 3]] ++ [[0]])
    (by decide +kernel)
  rw [beq_iff_eq] at htest
  exact ⟨t, hrun, (nothing_is_told_twice (by decide) hrun).1 _ _ _ htest (by decide), htest⟩

end Terminal

end TerminalPanes
