-- What a terminal is told about its style, and what it makes of it. A style is
-- changed by acts. Each act changes the record and tells only what is new, so
-- the screen shows the style on record, with one exception: an attribute that
-- shares its off code with another goes off together with it.
import TerminalPanes.Style.Replay
import TerminalPanes.Markup.Basic
import TerminalPanes.Sink

namespace TerminalPanes

/-- A change of style. -/
inductive StyleAct where
  | turnOn (set : Attributes)
  | turnOff (set : Attributes)
  | foreground (color : Color)
  | background (color : Color)
  /-- Plain style, no colours. -/
  | reset
  deriving DecidableEq, Repr

/-- The change of style that an instruction asks for. -/
def Instruction.act : Instruction → StyleAct
  | .turnOn e => .turnOn (Attributes.single e.attribute)
  | .foreground c => .foreground c
  | .background c => .background c

namespace Style

/-! ## The record -/

/-- The style on record after an act. -/
def act (s : Style) : StyleAct → Style
  | .turnOn set => s.enable set
  | .turnOff set => s.disable set
  | .foreground c => s.withForeground c
  | .background c => s.withBackground c
  | .reset => plain

def actAll (s : Style) (acts : List StyleAct) : Style := acts.foldl act s

/-- What is sent for an act. What is on record already is not sent again. -/
def tells (s : Style) : StyleAct → List Sequence
  | .turnOn set => (s.turnedOn set).toList.map fun a => .rendition a.onCode
  | .turnOff set => (s.turnedOff set).toList.map fun a => .rendition a.offCode
  | .foreground c => if s.hasForeground c then [] else [.foreground c]
  | .background c => if s.hasBackground c then [] else [.background c]
  | .reset => [.reset]

def tellsAll (s : Style) : List StyleAct → List Sequence
  | [] => []
  | x :: rest => s.tells x ++ (s.act x).tellsAll rest

theorem actAll_append (s : Style) (before after : List StyleAct) :
    s.actAll (before ++ after) = (s.actAll before).actAll after := List.foldl_append

theorem tellsAll_append (s : Style) (before after : List StyleAct) :
    s.tellsAll (before ++ after) = s.tellsAll before ++ (s.actAll before).tellsAll after := by
  induction before generalizing s with
  | nil => rfl
  | cons x rest ih =>
    rw [List.cons_append, tellsAll, ih, tellsAll, List.append_assoc]
    rfl

theorem withForeground_of_has {s : Style} {c : Color} (h : s.hasForeground c = true) :
    s.withForeground c = s := by
  have hc : s.foreground = some c := by simpa [hasForeground] using h
  rw [withForeground, ← hc]

theorem withBackground_of_has {s : Style} {c : Color} (h : s.hasBackground c = true) :
    s.withBackground c = s := by
  have hc : s.background = some c := by simpa [hasBackground] using h
  rw [withBackground, ← hc]

/-! ## The screen -/

/-- The style of the screen after it was told sequences. -/
def toldAll (s : Style) (sequences : List Sequence) : Style := sequences.foldl told s

@[simp] theorem toldAll_nil (s : Style) : s.toldAll [] = s := rfl

@[simp] theorem toldAll_cons (s : Style) (q : Sequence) (rest : List Sequence) :
    s.toldAll (q :: rest) = (s.told q).toldAll rest := rfl

theorem toldAll_append (s : Style) (before after : List Sequence) :
    s.toldAll (before ++ after) = (s.toldAll before).toldAll after := List.foldl_append

/-- An on code turns on its own attribute. -/
theorem told_onCode (s : Style) (a : Attribute) :
    s.told (.rendition a.onCode) = s.enable (Attributes.single a) := by
  cases a <;> rfl

/-- An off code turns off every attribute that it belongs to. -/
theorem has_told_offCode (s : Style) (b a : Attribute) :
    (s.told (.rendition b.offCode)).attributes.has a =
      (s.attributes.has a && !(b.offCode == a.offCode)) := by
  cases b <;> cases a <;> simp [told, switch, disable, Attribute.offCode, Attributes.single]

theorem has_toldAll_onCodes (s : Style) (attributes : List Attribute) (a : Attribute) :
    (s.toldAll (attributes.map fun b => .rendition b.onCode)).attributes.has a = true ↔
      s.attributes.has a = true ∨ a ∈ attributes := by
  induction attributes generalizing s with
  | nil => simp
  | cons b rest ih =>
    rw [List.map_cons, toldAll_cons, ih, told_onCode]
    simp only [enable, Attributes.has_union, Attributes.single, Attributes.has_ofTest,
      Bool.or_eq_true, beq_iff_eq, List.mem_cons, or_assoc]
    rw [@eq_comm _ b a]

theorem has_toldAll_offCodes (s : Style) (attributes : List Attribute) (a : Attribute) :
    (s.toldAll (attributes.map fun b => .rendition b.offCode)).attributes.has a = true ↔
      s.attributes.has a = true ∧ ∀ b ∈ attributes, b.offCode ≠ a.offCode := by
  induction attributes generalizing s with
  | nil => simp
  | cons b rest ih =>
    rw [List.map_cons, toldAll_cons, ih, has_told_offCode]
    simp only [Bool.and_eq_true, Bool.not_eq_true', beq_eq_false_iff_ne, ne_eq,
      List.forall_mem_cons, and_assoc]

/-- Codes for attributes leave the colours alone. -/
theorem colors_toldAll_codes {f : Attribute → Nat}
    (hf : f = Attribute.onCode ∨ f = Attribute.offCode)
    (s : Style) (attributes : List Attribute) :
    (s.toldAll (attributes.map fun b => .rendition (f b))).foreground = s.foreground ∧
      (s.toldAll (attributes.map fun b => .rendition (f b))).background = s.background := by
  induction attributes generalizing s with
  | nil => exact ⟨rfl, rfl⟩
  | cons b rest ih =>
    have hb : (s.told (.rendition (f b))).foreground = s.foreground ∧
        (s.told (.rendition (f b))).background = s.background := by
      rcases hf with rfl | rfl <;> cases b <;> exact ⟨rfl, rfl⟩
    obtain ⟨hfore, hback⟩ := ih (s.told (.rendition (f b)))
    rw [List.map_cons, toldAll_cons, hfore, hback]
    exact hb

/-! ## The screen after the record -/

/-- The screen shows the colours on record and no attribute beyond it. -/
structure Follows (shown recorded : Style) : Prop where
  foreground : shown.foreground = recorded.foreground
  background : shown.background = recorded.background
  attributes : ∀ a, shown.attributes.has a = true → recorded.attributes.has a = true

theorem Follows.refl (s : Style) : Follows s s := ⟨rfl, rfl, fun _ h => h⟩

/-- An attribute is on record and the screen does not show it. -/
def Lost (shown recorded : Style) (a : Attribute) : Prop :=
  recorded.attributes.has a = true ∧ shown.attributes.has a = false

/-- The screen shows the record when no attribute is lost. -/
theorem eq_iff_not_lost {shown recorded : Style} (h : Follows shown recorded) :
    shown = recorded ↔ ∀ a, ¬ Lost shown recorded a := by
  constructor
  · rintro rfl a ⟨hon, hoff⟩
    rw [hon] at hoff
    contradiction
  · intro hlost
    have hattributes : shown.attributes = recorded.attributes := by
      ext a
      cases hs : shown.attributes.has a with
      | true => exact (h.attributes a hs).symm
      | false =>
        cases hr : recorded.attributes.has a with
        | true => exact absurd ⟨hr, hs⟩ (hlost a)
        | false => rfl
    exact Style.ext hattributes h.foreground h.background

end Style

namespace StyleAct

/-- The act turns off an attribute that shares its code with another one on
record, and leaves that one on record. -/
def Strands (recorded : Style) (a : Attribute) : StyleAct → Prop
  | .turnOff set => recorded.attributes.has a = true ∧ set.has a = false ∧
      ∃ b, recorded.attributes.has b = true ∧ set.has b = true ∧ b.offCode = a.offCode
  | _ => False

/-- The act takes the attribute off the record, if it is there. -/
def Mends (a : Attribute) : StyleAct → Prop
  | .turnOff set => set.has a = true
  | .reset => True
  | _ => False

end StyleAct

namespace Style

theorem mem_turnedOn {s : Style} {set : Attributes} {a : Attribute} :
    a ∈ (s.turnedOn set).toList ↔ set.has a = true ∧ s.attributes.has a = false := by
  simp [turnedOn]

theorem mem_turnedOff {s : Style} {set : Attributes} {a : Attribute} :
    a ∈ (s.turnedOff set).toList ↔ set.has a = true ∧ s.attributes.has a = true := by
  simp [turnedOff]

/-- Each act leaves the screen following the record. -/
theorem follows_act {shown recorded : Style} (h : Follows shown recorded) (x : StyleAct) :
    Follows (shown.toldAll (recorded.tells x)) (recorded.act x) := by
  cases x with
  | turnOn set =>
    obtain ⟨hf, hb⟩ := colors_toldAll_codes (.inl rfl) shown (recorded.turnedOn set).toList
    refine ⟨hf.trans h.foreground, hb.trans h.background, ?_⟩
    intro a ha
    rcases (has_toldAll_onCodes shown _ a).1 ha with ha | ha
    · simp [act, enable, h.attributes a ha]
    · simp [act, enable, (mem_turnedOn.1 ha).1]
  | turnOff set =>
    obtain ⟨hf, hb⟩ := colors_toldAll_codes (.inr rfl) shown (recorded.turnedOff set).toList
    refine ⟨hf.trans h.foreground, hb.trans h.background, ?_⟩
    intro a ha
    obtain ⟨hshown, hcodes⟩ := (has_toldAll_offCodes shown _ a).1 ha
    have hon := h.attributes a hshown
    have hset : set.has a = false := by
      cases hset : set.has a with
      | false => rfl
      | true => exact absurd rfl (hcodes a (mem_turnedOff.2 ⟨hset, hon⟩))
    simp [act, disable, hon, hset]
  | foreground c =>
    by_cases hc : recorded.hasForeground c = true
    · rw [act, withForeground_of_has hc, tells, if_pos hc]
      exact h
    · rw [tells, if_neg hc]
      exact ⟨rfl, h.background, h.attributes⟩
  | background c =>
    by_cases hc : recorded.hasBackground c = true
    · rw [act, withBackground_of_has hc, tells, if_pos hc]
      exact h
    · rw [tells, if_neg hc]
      exact ⟨h.foreground, rfl, h.attributes⟩
  | reset => exact ⟨rfl, rfl, fun _ ha => ha⟩

/-- An attribute is lost after an act when the act strands it, or when it was
lost before and the act does not take it off the record. -/
theorem lost_act (shown recorded : Style) (x : StyleAct) (a : Attribute) :
    Lost (shown.toldAll (recorded.tells x)) (recorded.act x) a ↔
      x.Strands recorded a ∨ Lost shown recorded a ∧ ¬ x.Mends a := by
  have hlost : ∀ p s : Style, Lost p s a ↔
      s.attributes.has a = true ∧ ¬ p.attributes.has a = true := by
    intro p s
    rw [Lost, Bool.not_eq_true]
  rw [hlost, hlost]
  cases x with
  | turnOn set =>
    simp only [tells, has_toldAll_onCodes, mem_turnedOn, act, enable, Attributes.has_union,
      Bool.or_eq_true, StyleAct.Strands, StyleAct.Mends, not_false_eq_true, and_true, false_or]
    constructor
    · rintro ⟨hon, hshown⟩
      rw [not_or] at hshown
      cases hr : recorded.attributes.has a with
      | true => exact ⟨rfl, hshown.1⟩
      | false =>
        have hset : set.has a = true := by simpa [hr] using hon
        exact absurd ⟨hset, hr⟩ hshown.2
    · rintro ⟨hr, hshown⟩
      refine ⟨.inl hr, ?_⟩
      rw [not_or]
      exact ⟨hshown, fun hnew => by simp [hr] at hnew⟩
  | turnOff set =>
    simp only [tells, has_toldAll_offCodes, mem_turnedOff, act, disable, Attributes.has_sdiff,
      Bool.and_eq_true, Bool.not_eq_true', StyleAct.Strands, StyleAct.Mends, Bool.not_eq_true]
    constructor
    · rintro ⟨⟨hr, hset⟩, hshown⟩
      by_cases hs : shown.attributes.has a = true
      · left
        refine ⟨hr, hset, ?_⟩
        apply Classical.byContradiction
        intro hnone
        refine hshown ⟨hs, ?_⟩
        intro b hb hcode
        exact hnone ⟨b, hb.2, hb.1, hcode⟩
      · right
        exact ⟨⟨hr, by simpa using hs⟩, hset⟩
    · rintro (⟨hr, hset, b, hb, hbset, hcode⟩ | ⟨⟨hr, hs⟩, hset⟩)
      · exact ⟨⟨hr, hset⟩, fun hshown => hshown.2 b ⟨hbset, hb⟩ hcode⟩
      · refine ⟨⟨hr, hset⟩, fun hshown => ?_⟩
        rw [hs] at hshown
        exact absurd hshown.1 (by simp)
  | foreground c =>
    have hsame :
        (shown.toldAll (recorded.tells (.foreground c))).attributes = shown.attributes := by
      rw [tells]
      split <;> rfl
    simp only [hsame, act, withForeground, StyleAct.Strands, StyleAct.Mends, not_false_eq_true,
      and_true, false_or]
  | background c =>
    have hsame :
        (shown.toldAll (recorded.tells (.background c))).attributes = shown.attributes := by
      rw [tells]
      split <;> rfl
    simp only [hsame, act, withBackground, StyleAct.Strands, StyleAct.Mends, not_false_eq_true,
      and_true, false_or]
  | reset =>
    simp [act, plain, StyleAct.Strands, StyleAct.Mends]

/-! ## Many acts -/

theorem follows_actAll {shown recorded : Style} (h : Follows shown recorded)
    (acts : List StyleAct) :
    Follows (shown.toldAll (recorded.tellsAll acts)) (recorded.actAll acts) := by
  induction acts generalizing shown recorded with
  | nil => exact h
  | cons x rest ih =>
    rw [tellsAll, toldAll_append]
    exact ih (follows_act h x)

/-- An act strands the attribute, and none of the later acts takes it off the
record. -/
def Stranded (recorded : Style) (acts : List StyleAct) (a : Attribute) : Prop :=
  ∃ before x after, acts = before ++ x :: after ∧ x.Strands (recorded.actAll before) a ∧
    ∀ y ∈ after, ¬ y.Mends a

theorem not_stranded_nil (recorded : Style) (a : Attribute) : ¬ Stranded recorded [] a := by
  rintro ⟨before, x, after, h, -, -⟩
  cases before <;> contradiction

/-- The first act is the one that strands, or one of the rest is. -/
theorem stranded_cons {recorded : Style} {x : StyleAct} {rest : List StyleAct} {a : Attribute} :
    Stranded recorded (x :: rest) a ↔
      Stranded (recorded.act x) rest a ∨ x.Strands recorded a ∧ ∀ y ∈ rest, ¬ y.Mends a := by
  constructor
  · rintro ⟨before, y, after, hacts, hy, hafter⟩
    cases before with
    | nil =>
      rw [List.nil_append, List.cons.injEq] at hacts
      obtain ⟨rfl, rfl⟩ := hacts
      exact .inr ⟨hy, hafter⟩
    | cons z before =>
      rw [List.cons_append, List.cons.injEq] at hacts
      obtain ⟨rfl, rfl⟩ := hacts
      exact .inl ⟨before, y, after, rfl, hy, hafter⟩
  · rintro (⟨before, y, after, rfl, hy, hafter⟩ | ⟨hx, hrest⟩)
    · exact ⟨x :: before, y, after, rfl, hy, hafter⟩
    · exact ⟨[], x, rest, rfl, hx, hrest⟩

/-- An attribute is lost at the end when it was stranded, or when it was lost at
the beginning and no act took it off the record. -/
theorem lost_actAll (shown recorded : Style) (acts : List StyleAct) (a : Attribute) :
    Lost (shown.toldAll (recorded.tellsAll acts)) (recorded.actAll acts) a ↔
      Stranded recorded acts a ∨ Lost shown recorded a ∧ ∀ y ∈ acts, ¬ y.Mends a := by
  induction acts generalizing shown recorded with
  | nil => simp [actAll, tellsAll, not_stranded_nil]
  | cons x rest ih =>
    rw [tellsAll, toldAll_append, stranded_cons, List.forall_mem_cons]
    refine (ih (shown.toldAll (recorded.tells x)) (recorded.act x)).trans ?_
    rw [lost_act shown recorded x a]
    constructor
    · rintro (hstranded | ⟨hx | ⟨hlost, hmends⟩, hrest⟩)
      · exact .inl (.inl hstranded)
      · exact .inl (.inr ⟨hx, hrest⟩)
      · exact .inr ⟨hlost, hmends, hrest⟩
    · rintro ((hstranded | ⟨hx, hrest⟩) | ⟨hlost, hmends, hrest⟩)
      · exact .inl hstranded
      · exact .inr ⟨.inl hx, hrest⟩
      · exact .inr ⟨.inr ⟨hlost, hmends⟩, hrest⟩

/-- Only bold and dim share an off code, so only they are ever stranded. -/
theorem eq_bold_or_dim_of_stranded {recorded : Style} {acts : List StyleAct} {a : Attribute}
    (h : Stranded recorded acts a) : a = .bold ∨ a = .dim := by
  obtain ⟨before, x, after, -, hx, -⟩ := h
  cases x with
  | turnOff set =>
    obtain ⟨-, hkept, b, -, hoff, hcode⟩ := hx
    have hne : b ≠ a := by
      rintro rfl
      rw [hkept] at hoff
      contradiction
    cases a <;> cases b <;> simp_all [Attribute.offCode]
  | _ => exact hx.elim

/-- On a screen that showed the record, what is lost was stranded. -/
theorem lost_iff_stranded (s : Style) (acts : List StyleAct) (a : Attribute) :
    Lost (s.toldAll (s.tellsAll acts)) (s.actAll acts) a ↔ Stranded s acts a := by
  have hnone : ¬ Lost s s a := (eq_iff_not_lost (Follows.refl s)).1 rfl a
  rw [lost_actAll]
  exact or_iff_left fun h => hnone h.1

/-- A screen that showed the record goes on to show it, but for what is
stranded. -/
theorem has_toldAll_tellsAll (s : Style) (acts : List StyleAct) (a : Attribute) :
    (s.toldAll (s.tellsAll acts)).attributes.has a = true ↔
      (s.actAll acts).attributes.has a = true ∧ ¬ Stranded s acts a := by
  have hfollows := follows_actAll (Follows.refl s) acts
  rw [← lost_iff_stranded]
  constructor
  · intro hshown
    refine ⟨hfollows.attributes a hshown, fun hlost => ?_⟩
    rw [hlost.2] at hshown
    contradiction
  · rintro ⟨hrecorded, hlost⟩
    cases hshown : (s.toldAll (s.tellsAll acts)).attributes.has a with
    | true => rfl
    | false => exact absurd ⟨hrecorded, hshown⟩ hlost

theorem toldAll_tellsAll_eq_iff (s : Style) (acts : List StyleAct) :
    s.toldAll (s.tellsAll acts) = s.actAll acts ↔ ∀ a, ¬ Stranded s acts a := by
  rw [eq_iff_not_lost (follows_actAll (Follows.refl s) acts)]
  exact forall_congr' fun a => not_congr (lost_iff_stranded s acts a)

end Style

/-! ## The stream -/

namespace Emission

/-- The sequence of the emission, if it is one for the style. -/
def styling? : Emission → Option Sequence
  | .control q => if q.final = 'm' then some q else none
  | _ => none

/-- The sequences for the style among emissions. -/
def stylings (es : List Emission) : List Sequence := es.filterMap styling?

theorem stylings_append (before after : List Emission) :
    stylings (before ++ after) = stylings before ++ stylings after := List.filterMap_append

theorem stylings_text_cons (t : Text) (rest : List Emission) :
    stylings (.text t :: rest) = stylings rest := rfl

/-- What stands in the emission beside sequences of this library begins none. -/
def Plain : Emission → Prop
  | .control _ => True
  | .text t => Event.escape ∉ t
  | .raw t => Event.escape ∉ t

theorem plain_of_mem_map_control {qs : List Sequence} {e : Emission}
    (h : e ∈ qs.map Emission.control) : e.Plain := by
  obtain ⟨q, -, rfl⟩ := List.mem_map.1 h
  trivial

end Emission

namespace Style

theorem told_of_final_ne {q : Sequence} (h : q.final ≠ 'm') (s : Style) : s.told q = s := by
  cases q <;> first | rfl | exact absurd rfl h

theorem final_of_mem_tells {s : Style} {x : StyleAct} {q : Sequence} (h : q ∈ s.tells x) :
    q.final = 'm' := by
  cases x with
  | turnOn set =>
    obtain ⟨a, -, rfl⟩ := List.mem_map.1 h
    rfl
  | turnOff set =>
    obtain ⟨a, -, rfl⟩ := List.mem_map.1 h
    rfl
  | foreground c =>
    rw [tells] at h
    split at h
    · contradiction
    · rw [List.mem_singleton.1 h]
      rfl
  | background c =>
    rw [tells] at h
    split at h
    · contradiction
    · rw [List.mem_singleton.1 h]
      rfl
  | reset =>
    rw [List.mem_singleton.1 h]
    rfl

theorem final_of_mem_tellsAll {s : Style} {acts : List StyleAct} {q : Sequence}
    (h : q ∈ s.tellsAll acts) : q.final = 'm' := by
  induction acts generalizing s with
  | nil => contradiction
  | cons x rest ih =>
    rcases List.mem_append.1 h with h | h
    · exact final_of_mem_tells h
    · exact ih h

/-- All that is sent for acts is for the style. -/
theorem stylings_tellsAll (s : Style) (acts : List StyleAct) :
    Emission.stylings ((s.tellsAll acts).map .control) = s.tellsAll acts := by
  have hall : ∀ qs : List Sequence, (∀ q ∈ qs, q.final = 'm') →
      Emission.stylings (qs.map .control) = qs := by
    intro qs hqs
    induction qs with
    | nil => rfl
    | cons q rest ih =>
      obtain ⟨hq, hrest⟩ := List.forall_mem_cons.1 hqs
      rw [List.map_cons, Emission.stylings, List.filterMap_cons, Emission.styling?, if_pos hq]
      exact congrArg (q :: ·) (ih hrest)
  exact hall _ fun _ hq => final_of_mem_tellsAll hq

/-- Of plain emissions the screen obeys those for the style. -/
theorem replay_emissions (s : Style) {es : List Emission} (h : ∀ e ∈ es, e.Plain) :
    s.replay (Event.read (es.flatMap Emission.chars)) = s.toldAll (Emission.stylings es) := by
  induction es generalizing s with
  | nil => rfl
  | cons e rest ih =>
    obtain ⟨he, hrest⟩ := List.forall_mem_cons.1 h
    have hshown : ∀ t : Text, Event.escape ∉ t →
        s.replay (Event.read (t ++ rest.flatMap Emission.chars)) =
          s.toldAll (Emission.stylings rest) := by
      intro t ht
      rw [Event.read_append_of_not_mem ht, replay_append, replay_shown, ih s hrest]
    rw [List.flatMap_cons]
    cases e with
    | control q =>
      refine (replay_write s q _).trans ?_
      rw [ih (s.told q) hrest]
      by_cases hq : q.final = 'm'
      · simp [Emission.stylings, Emission.styling?, hq]
      · simp [Emission.stylings, Emission.styling?, hq, told_of_final_ne hq]
    | text t => exact hshown t he
    | raw t => exact hshown t he

end Style

end TerminalPanes
