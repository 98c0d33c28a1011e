-- How the showcase ends. The screen is given back once and last, also when the
-- input ends before there is a key and the hold on it goes out of use. What is
-- drawn between holds no sequence that gives it back, and bytes that look like
-- one in the stream are one.
import TerminalPanes.Proofs.MarkupGrammar
import TerminalPanes.Proofs.ScreenHold
import TerminalPanes.Proofs.ShowcaseScreen
import TerminalPanes.Proofs.SinkLimit
import TerminalPanes.Proofs.KeyEncoding
import TerminalPanes.Proofs.StyleRecord

namespace TerminalPanes

/-! ## Characters in a stream of bytes -/

namespace Text

theorem encode_of_ascii {c : Char} (h : c.toNat < 128) :
    String.utf8EncodeChar c = [UInt8.ofNat c.toNat] := by
  unfold String.utf8EncodeChar
  simp only [Char.toNat_val]
  rw [if_pos (by omega)]

/-- Beyond ASCII no byte is one of ASCII. -/
theorem high_of_mem_encode {c : Char} (h : 128 ≤ c.toNat) {b : UInt8}
    (hb : b ∈ String.utf8EncodeChar c) : 128 ≤ b.toNat := by
  have hbyte : ∀ n m : Nat, m + 128 < 256 → n < 128 - m →
      128 ≤ (UInt8.ofNat (n + (m + 128))).toNat := by
    intro n m hm hn
    rw [Utf8.toNat_ofNat (by omega)]
    omega
  by_cases htwo : c.toNat ≤ 0x7FF
  · rw [(Utf8.isForm_two h htwo).encode] at hb
    rcases List.mem_pair.1 hb with rfl | rfl
    · exact hbyte _ 64 (by decide) (by omega)
    · exact hbyte _ 0 (by decide) (by omega)
  by_cases hthree : c.toNat ≤ 0xFFFF
  · rw [(Utf8.isForm_three (by omega) hthree).encode] at hb
    rcases List.mem_cons.1 hb with rfl | hb
    · exact hbyte _ 96 (by decide) (by omega)
    · rcases List.mem_pair.1 hb with rfl | rfl
      · exact hbyte _ 0 (by decide) (by omega)
      · exact hbyte _ 0 (by decide) (by omega)
  · rw [(Utf8.isForm_four (by omega)).encode] at hb
    rcases List.mem_cons.1 hb with rfl | hb
    · exact hbyte _ 112 (by decide) (by omega)
    rcases List.mem_cons.1 hb with rfl | hb
    · exact hbyte _ 0 (by decide) (by omega)
    · rcases List.mem_pair.1 hb with rfl | rfl
      · exact hbyte _ 0 (by decide) (by omega)
      · exact hbyte _ 0 (by decide) (by omega)

theorem bytes_cons (c : Char) (t : Text) : bytes (c :: t) = String.utf8EncodeChar c ++ bytes t :=
  List.flatMap_cons

/-- Characters of ASCII stand at the beginning of a text if their bytes do. -/
theorem of_bytes_append {needle t : Text} (hascii : ∀ c ∈ needle, c.toNat < 128)
    {after : List UInt8} (h : bytes needle ++ after = bytes t) : ∃ back, t = needle ++ back := by
  induction needle generalizing t with
  | nil => exact ⟨t, rfl⟩
  | cons c needle ih =>
    obtain ⟨hc, hascii⟩ := List.forall_mem_cons.1 hascii
    rw [bytes_cons, encode_of_ascii hc] at h
    cases t with
    | nil => cases h
    | cons d t =>
      rw [bytes_cons] at h
      by_cases hd : d.toNat < 128
      · rw [encode_of_ascii hd] at h
        obtain ⟨hbyte, hrest⟩ := List.cons.inj h
        obtain ⟨back, rfl⟩ := ih hascii hrest
        have hsame : c = d := by
          have hnat := congrArg UInt8.toNat hbyte
          rw [Utf8.toNat_ofNat (by omega), Utf8.toNat_ofNat (by omega)] at hnat
          exact Char.toNat_inj.1 hnat
        exact ⟨back, by rw [hsame]; rfl⟩
      · obtain ⟨lead, more, hform⟩ := Utf8.exists_isForm (Nat.le_of_not_lt hd)
        have hhigh := high_of_mem_encode (b := lead) (Nat.le_of_not_lt hd) (by simp [hform.encode])
        rw [hform.encode] at h
        rw [← (List.cons.inj h).1, Utf8.toNat_ofNat (by omega)] at hhigh
        omega

/-- And they stand within it if their bytes do. -/
theorem of_append_bytes_append {needle t : Text} (hascii : ∀ c ∈ needle, c.toNat < 128)
    (hne : needle ≠ []) {before after : List UInt8}
    (h : before ++ (bytes needle ++ after) = bytes t) :
    ∃ front back, before = bytes front ∧ t = front ++ (needle ++ back) := by
  obtain ⟨first, needle, rfl⟩ := List.exists_cons_of_ne_nil hne
  have hfirst := hascii first List.mem_cons_self
  induction t generalizing before with
  | nil => simp [bytes_cons, encode_of_ascii hfirst] at h
  | cons c t ih =>
    cases before with
    | nil =>
      obtain ⟨back, hback⟩ := of_bytes_append hascii h
      exact ⟨[], back, rfl, hback⟩
    | cons b before =>
      rw [bytes_cons c t] at h
      rcases List.append_eq_append_iff.1 h with ⟨inner, hinner, hrest⟩ | ⟨inner, hinner, hrest⟩
      · cases inner with
        | nil =>
          obtain ⟨front, back, hfront, hback⟩ := @ih [] hrest
          refine ⟨c :: front, back, ?_, by rw [hback]; rfl⟩
          rw [bytes_cons, hinner, ← hfront, List.append_nil, List.append_nil]
        | cons d inner =>
          -- The bytes would begin within a character, and there is none of ASCII there.
          rw [bytes_cons, encode_of_ascii hfirst] at hrest
          have hd : d = UInt8.ofNat first.toNat := ((List.cons.inj hrest).1).symm
          have hmem : d ∈ String.utf8EncodeChar c := by simp [hinner]
          by_cases hc : c.toNat < 128
          · rw [encode_of_ascii hc] at hinner
            simp at hinner
          · have hhigh := high_of_mem_encode (Nat.le_of_not_lt hc) hmem
            rw [hd, Utf8.toNat_ofNat (by omega)] at hhigh
            omega
      · obtain ⟨front, back, hfront, hback⟩ := ih hrest.symm
        refine ⟨c :: front, back, ?_, by rw [hback]; rfl⟩
        rw [bytes_cons, hinner, hfront]

end Text

/-! ## Where the screen is given back -/

namespace Emission

/-- Text that begins no sequence, or a sequence that does not give the screen back. -/
structure Harmless (e : Emission) : Prop where
  plain : e.Plain
  ne : e ≠ .control .restoreScreen

end Emission

namespace Sequence

/-- The escape character stands at the beginning and nowhere else. -/
theorem escape_not_mem_tail (s : Sequence) : Event.escape ∉ '[' :: (s.parameters ++ [s.final]) := by
  have hfinal : s.final ≠ Event.escape := fun h => by
    have hisFinal := Event.isFinal_final s
    rw [h] at hisFinal
    exact absurd hisFinal (by decide)
  have hparameters : Event.escape ∉ s.parameters := fun h =>
    absurd (Event.continues_of_mem_parameters h) (by decide)
  simp only [List.mem_cons, List.mem_append, List.not_mem_nil, or_false, not_or]
  exact ⟨by decide, hparameters, hfinal.symm⟩

theorem write_eq_cons (s : Sequence) :
    s.write = Event.escape :: '[' :: (s.parameters ++ [s.final]) := by
  rw [write, opening, List.append_assoc]
  rfl

/-- Only what gives the screen back begins like it. -/
theorem eq_restoreScreen_of_append {s : Sequence} {rest after : Text}
    (h : s.write ++ rest = restoreScreen.write ++ after) : s = .restoreScreen := by
  have hread := congrArg Event.read h
  rw [Event.read_write_append, Event.read_write_append] at hread
  have hcommand := (List.cons.inj hread).1
  obtain ⟨hparameters, hfinal⟩ := Event.command.inj hcommand
  cases s with
  | restoreScreen => rfl
  | hideCursor => exact absurd hparameters (by decide)
  | erase what => cases what <;> exact absurd hfinal (by decide)
  | _ => simp [final] at hfinal

end Sequence

namespace Emission

/-- The screen is given back by what gives it back, and nowhere else. -/
theorem eq_of_restoreScreen {es : List Emission} (hes : ∀ e ∈ es, e.Harmless) {front back : Text}
    (h : es.flatMap chars ++ Sequence.restoreScreen.write =
      front ++ (Sequence.restoreScreen.write ++ back)) : front = es.flatMap chars := by
  induction es generalizing front with
  | nil =>
    have hlength := congrArg List.length h
    simp only [List.flatMap_nil, List.nil_append, List.length_append] at hlength
    exact List.eq_nil_of_length_eq_zero (by omega)
  | cons e rest ih =>
    obtain ⟨he, hrest⟩ := List.forall_mem_cons.1 hes
    rw [List.flatMap_cons, List.append_assoc] at h
    rcases List.append_eq_append_iff.1 h with ⟨inner, hinner, htail⟩ | ⟨inner, hinner, htail⟩
    · rw [hinner, ih hrest htail, List.flatMap_cons]
    · cases inner with
      | nil =>
        have hfront := @ih hrest [] htail.symm
        rw [List.flatMap_cons, ← hfront, hinner, List.append_nil, List.append_nil]
      | cons d inner =>
        -- What gives the screen back would begin within `e`, at an escape character.
        have hd := htail
        rw [Sequence.write_eq_cons] at hd
        obtain rfl : Event.escape = d := (List.cons.inj hd).1
        have hmem : Event.escape ∈ e.chars := by simp [hinner]
        cases e with
        | text t => exact absurd hmem he.plain
        | raw t => exact absurd hmem he.plain
        | control s =>
          change s.write = front ++ Event.escape :: inner at hinner
          cases front with
          | nil =>
            have hs : s.write ++ _ = _ := (congrArg (· ++ _) hinner).trans htail.symm
            exact absurd (congrArg control (Sequence.eq_restoreScreen_of_append hs)) he.ne
          | cons c front =>
            rw [Sequence.write_eq_cons] at hinner
            have htail := s.escape_not_mem_tail
            rw [(List.cons.inj hinner).2] at htail
            simp at htail

end Emission

/-! ## A sink that nothing harmful was sent to -/

namespace Sink

/-- A sink that takes everything. What it has taken begins with `front`, and nothing in it
gives the screen back. -/
structure Calm (front : List Emission) (s : Sink) : Prop where
  unlimited : s.Unlimited
  begins : front <+: s.emissions
  harmless : ∀ e ∈ s.emissions, e.Harmless

variable {s : Sink} {front : List Emission}

theorem cut_takeAll (s : Sink) (es : List Emission) : (s.takeAll es).cut = s.cut := by
  induction es generalizing s with
  | nil => rfl
  | cons e rest ih => exact ih (s.take e)

theorem unlimited_takeAll (hs : s.Unlimited) (es : List Emission) : (s.takeAll es).Unlimited :=
  ⟨room_takeAll hs.room es, by rw [cut_takeAll, hs.cut]⟩

theorem calm_takeAll (hs : s.Calm front) {es : List Emission} (hes : ∀ e ∈ es, e.Harmless) :
    (s.takeAll es).Calm front := by
  refine ⟨unlimited_takeAll hs.unlimited es, ?_, ?_⟩
  · rw [emissions_takeAll]
    exact hs.begins.trans (List.prefix_append _ _)
  · rw [emissions_takeAll]
    exact List.forall_mem_append.2 ⟨hs.harmless, hes⟩

theorem bytes_of_unlimited (h : s.Unlimited) : s.bytes = Text.bytes s.text := by
  have hall : ∀ es : List Emission,
      es.flatMap Emission.bytes = Text.bytes (es.flatMap Emission.chars) := by
    intro es
    induction es with
    | nil => rfl
    | cons e rest ih => rw [List.flatMap_cons, List.flatMap_cons, Text.bytes_append, ih]; rfl
  rw [bytes, h.cut, List.append_nil, hall, text]

end Sink

theorem Emission.harmless_control {q : Sequence} (h : q ≠ .restoreScreen) :
    (Emission.control q).Harmless := ⟨trivial, fun heq => h (Emission.control.inj heq)⟩

theorem Emission.harmless_text {t : Text} (h : Event.escape ∉ t) : (Emission.text t).Harmless :=
  ⟨h, nofun⟩

theorem Emission.harmless_map_control {qs : List Sequence} (h : .restoreScreen ∉ qs) :
    ∀ e ∈ qs.map Emission.control, e.Harmless := by
  intro e he
  obtain ⟨q, hq, rfl⟩ := List.mem_map.1 he
  refine harmless_control ?_
  rintro rfl
  exact h hq

/-- Nothing that is sent for the style gives the screen back. -/
theorem Style.harmless_tellsAll (s : Style) (acts : List StyleAct) :
    ∀ e ∈ (s.tellsAll acts).map Emission.control, e.Harmless := by
  refine Emission.harmless_map_control fun hq => ?_
  have hfinal := final_of_mem_tellsAll hq
  contradiction

theorem Section.harmless_emissionsOfAll (c : Config) (start : Style) {sections : List Section}
    (h : ∀ s ∈ sections, Event.escape ∉ s.content) :
    ∀ e ∈ emissionsOfAll c start sections, e.Harmless := by
  induction sections generalizing start with
  | nil => nofun
  | cons s rest ih =>
    obtain ⟨hs, hrest⟩ := List.forall_mem_cons.1 h
    rw [emissionsOfAll, emissions, List.forall_mem_append, List.forall_mem_append,
      List.forall_mem_cons]
    exact ⟨⟨start.harmless_tellsAll _, Emission.harmless_text hs, start.harmless_tellsAll _⟩,
      ih _ hrest⟩

namespace Terminal

variable {front : List Emission} {size : Size} {config : Config}

/-- A terminal on which nothing goes wrong, over a sink that nothing harmful was sent to. -/
structure Calm (front : List Emission) (size : Size) (config : Config) (t : Terminal) : Prop where
  ready : Ready size config t
  sink : t.sink.Calm front

theorem upholds_calm {m : Action Unit}
    (h : ∀ t, Ready size config t → ∃ es style history, style = config.plainStyle ∧
      history.Valid ∧ (∀ e ∈ es, e.Harmless) ∧ Ends m t () (t.became es style history)) :
    Upholds (Calm front size config) (fun e => Never (.terminal e)) m := by
  intro t ht
  obtain ⟨es, style, history, hstyle, hvalid, hes, hends⟩ := h t ht.ready
  obtain ⟨hok, hroom⟩ := hends.unlimited ht.ready.unlimited
  exact Upholds.at_ok hok ⟨⟨hroom, hvalid, hstyle, ht.ready.size, ht.ready.config⟩,
    Sink.calm_takeAll ht.sink hes⟩

theorem calm_moveTo (p : Point) :
    Upholds (Calm front size config) (fun e => Never (.terminal e)) (moveTo p) :=
  upholds_calm fun t ht =>
    ⟨_, _, _, ht.plain, History.stable_valid.push ht.valid (isCell_cellOf p),
      List.forall_mem_singleton.2 (Emission.harmless_control (by simp)), Ends.moveTo p t⟩

theorem calm_writeSections [Text.Measure] {sections : List Section}
    (hs : ∀ s ∈ sections, Event.escape ∉ s.content) (wrap : Wrap) :
    Upholds (Calm front size config) (fun e => Never (.terminal e))
      (writeSections sections wrap) := by
  have hcontents : Event.escape ∉ Section.contents sections := by
    intro hmem
    obtain ⟨content, hcontent, hc⟩ := List.mem_flatten.1 hmem
    obtain ⟨s, hsection, rfl⟩ := List.mem_map.1 hcontent
    exact hs s hsection hc
  refine upholds_calm fun t ht => ?_
  obtain ⟨cell, history, hvalid, hends⟩ := ht.ends_writeSections sections wrap
  have hcut := escape_not_mem_of_cutOf (cutOf_cutFrom t cell wrap sections) hcontents
  exact ⟨_, _, history, rfl, hvalid, Section.harmless_emissionsOfAll _ _ hcut, hends⟩

/-- Moving, and writing text that begins no sequence. -/
theorem standing_calm [Text.Measure] :
    Standing (Calm front size config) (fun _ => True) Never fun s => Event.escape ∉ s.content where
  position t ht := footing_ready.position t ht.ready
  moveTo := calm_moveTo
  writeSections _ wrap hs := calm_writeSections hs wrap

theorem calm_clearScreen :
    Upholds (Calm front size config) (fun e => Never (.terminal e)) clearScreen :=
  .bind
    (upholds_calm fun t ht => ⟨_, _, _, ht.plain, ht.valid,
      List.forall_mem_singleton.2 (Emission.harmless_control (by simp)),
      Ends.send (.erase .screen) t⟩)
    fun _ => calm_moveTo _

theorem calm_send {q : Sequence} (h : q ≠ .restoreScreen) :
    Upholds (fun t : Terminal => t.sink.Calm front) (fun e => Never (.terminal e)) (send q) := by
  intro t ht
  obtain ⟨hok, -⟩ := (Ends.send q t).unlimited ht.unlimited.room
  exact Upholds.at_ok hok
    (Sink.calm_takeAll ht (List.forall_mem_singleton.2 (Emission.harmless_control h)))

theorem calm_restore :
    Upholds (fun t : Terminal => t.sink.Calm front) (fun e => Never (.terminal e)) restore :=
  .bind (.bind (calm_send nofun) fun _ => .modify fun _ ht => ht) fun _ => calm_send nofun

end Terminal

/-! ## Texts that begin no sequence -/

namespace Text

theorem Pieces.subset {mark : Char} {t : Text} {ps : List Text} (h : Pieces mark t ps) :
    ∀ p ∈ ps, p ⊆ t := by
  induction h with
  | none => nofun
  | one _ _ => exact List.forall_mem_singleton.2 (List.Subset.refl _)
  | skip _ ih => exact fun p hp => List.subset_cons_of_subset _ (ih p hp)
  | more _ _ _ ih =>
    refine List.forall_mem_cons.2 ⟨List.subset_append_left _ _, fun p hp => ?_⟩
    exact List.subset_append_of_subset_right _ (List.subset_cons_of_subset _ (ih p hp))

end Text

namespace Markup

theorem Division.content_subset {chunk head content : Text} (h : Division chunk head content) :
    content ⊆ chunk := by
  cases h with
  | plain _ => exact List.Subset.refl _
  | escaped _ => simp
  | styled _ _ => exact List.subset_append_of_subset_right _ (List.subset_cons_self _ _)

/-- The contents of what is read hold the characters of the text. -/
theorem content_subset_of_read {m : Text} {sections : List Section} (h : read m = .ok sections) :
    ∀ s ∈ sections, s.content ⊆ m := by
  intro s hs
  obtain ⟨chunk, hchunk, hread⟩ := exists_of_mem_of_mapM h hs
  obtain ⟨head, xs, hdivision, -⟩ := readSection_eq_ok_iff.1 hread
  exact List.Subset.trans hdivision.content_subset ((Text.pieces_pieces _ _).subset chunk hchunk)

/-- A text that can be read and begins no sequence is written as such text. -/
theorem Readable.yields {m : Text} (h : Readable m) (hm : Event.escape ∉ m) :
    Yields Never (fun s => Event.escape ∉ s.content) m :=
  ⟨h.covers _, fun _ hread s hs hmem => hm (content_subset_of_read hread s hs hmem)⟩

end Markup

/-! ## Keys that only reading takes -/

namespace Workspace

variable {α : Type} {i : KeyInput}

/-- However the action ends, the keys to come are the same. -/
abbrev SparesKeys (i : KeyInput) (m : Action α) : Prop :=
  Upholds (fun w => w.keys = i) (fun _ => True) m

theorem sparesKeys_onTerminal (action : Terminal.Action α) : SparesKeys i (onTerminal action) :=
  .within (onTerminal_eq action) (fun _ => .always action) (fun _ _ => trivial)
    fun _ _ hw _ => hw

theorem sparesKeys_onPane (id : Nat) (action : View → Canvas.Action α) :
    SparesKeys i (onPane id action) :=
  .within (onPane_eq id action) (fun _ => .always _) (fun _ _ => trivial) fun _ _ hw _ => hw

theorem sparesKeys_onPanes (change : Forest → α × Forest) : SparesKeys i (onPanes change) :=
  fun _ hw => Upholds.at_ok rfl hw

theorem sparesKeys_newPane (placement : Placement) : SparesKeys i (newPane placement) :=
  sparesKeys_onPanes _

theorem sparesKeys_changePane (id : Nat) (change : Pane → Pane) :
    SparesKeys i (changePane id change) := sparesKeys_onPanes _

end Workspace

namespace KeyInput

/-- Where no read fails, there is no key only because the input has ended. -/
theorem eq_inputClosed_of_readKey {reader : KeyReader} {script : Script}
    (hscript : ∀ read ∈ script, ∃ bs, read = .bytes bs) {f : Fault}
    (h : (readKey reader script).1 = .error f) : f = .inputClosed := by
  have hclosed : ∀ (reader : KeyReader) (later : Script),
      (takeOrClosed reader later).1 = .error f → f = .inputClosed := by
    intro reader later h
    unfold takeOrClosed at h
    split at h
    · cases h
    · cases h
      rfl
  fun_induction readKey reader script with
  | case1 => cases h
  | case2 => exact hclosed _ _ h
  | case3 =>
    obtain ⟨bs, hbs⟩ := hscript _ List.mem_cons_self
    cases hbs
  | case4 => exact hclosed _ _ h
  | case5 _ _ _ _ ih => exact ih (fun read hread => hscript read (List.mem_cons_of_mem _ hread)) h

end KeyInput

namespace Script

theorem bytes_of_mem_ofBytes {bs : List UInt8} : ∀ read ∈ ofBytes bs, ∃ cs, read = .bytes cs := by
  fun_induction ofBytes bs with
  | case1 bs _ => exact List.forall_mem_singleton.2 ⟨bs, rfl⟩
  | case2 bs _ ih => exact List.forall_mem_cons.2 ⟨⟨_, rfl⟩, ih⟩

theorem bytes_of_mem_ofChunks {pieces : List (List UInt8)} :
    ∀ read ∈ ofChunks (pieces.map .bytes), ∃ bs, read = .bytes bs := by
  intro read hread
  obtain ⟨chunk, hchunk, hread⟩ := List.mem_flatMap.1 hread
  obtain ⟨piece, -, rfl⟩ := List.mem_map.1 hchunk
  exact bytes_of_mem_ofBytes read hread

end Script

namespace Showcase

open Markup (Readable)
open Workspace

/-! ## What the showcase writes -/

theorem escape_not_mem_styleLines : ∀ line ∈ styleLines, Event.escape ∉ line := by decide +kernel

theorem escape_not_mem_geometryLine (r : Rect) : Event.escape ∉ geometryLine r := by
  have hnumber : ∀ n, Event.escape ∉ Decimal.write n := Decimal.not_mem_write rfl (by decide)
  have hstart : Event.escape ∉ "|fg[gray]>this pane: ".toList := by decide +kernel
  have hat : Event.escape ∉ " at ".toList := by decide +kernel
  have hmarks : Event.escape ≠ 'x' ∧ Event.escape ≠ ',' ∧ Event.escape ≠ '|' := by decide
  unfold geometryLine
  generalize "|fg[gray]>this pane: ".toList = start at hstart ⊢
  generalize " at ".toList = at' at hat ⊢
  simp [hnumber, hstart, hat, hmarks]

theorem escape_not_mem_layoutLines (r : Rect) (wrap : Wrap) :
    ∀ line ∈ layoutLines r wrap, Event.escape ∉ line := by
  have hwrap : Event.escape ∉ wrapLine wrap := by cases wrap <;> decide +kernel
  have hfixed : ∀ line ∈ ["|b;fg[magenta]>Layout|", "", "Each half is computed from the frame's",
      "padded area on every access, so the",
      "split follows the terminal as it resizes."].map String.toList,
      Event.escape ∉ line := by decide +kernel
  intro line hline
  rcases List.mem_append.1 hline with hline | hline
  · exact hfixed line hline
  · rcases List.mem_pair.1 hline with rfl | rfl
    · exact escape_not_mem_geometryLine r
    · exact hwrap

theorem readable_defaultPause : Readable defaultPause :=
  Markup.readable_of_isOk (by decide +kernel)

variable {front : List Emission} {size : Size} {config : Config}

/-- Nothing goes wrong in the workspace, and nothing harmful was sent. -/
abbrev Calm (front : List Emission) (size : Size) (config : Config) (w : Workspace) : Prop :=
  w.Kept (Terminal.Calm front size config) fun _ => True

theorem calm_opened {sink : Sink} (h : sink.Calm front) (size : Size) (config : Config) :
    Terminal.Calm front size config (opened sink size config) :=
  ⟨ready_opened h.unlimited.room size config, Sink.calm_takeAll h
    (Style.harmless_tellsAll _ config.closingActs)⟩

/-- No terminal is so large that the last row of the frame is out of the words. -/
theorem IsFrame.upholds_moveToBottomLeft [Text.Measure] {P : Terminal → Prop} {K : Point → Prop}
    {T : Section → Prop} (g : Standing P K Never T) {p : Pane} (h : IsFrame p) (size : Size) :
    Upholds (Canvas.Kept P K) Never (Canvas.moveToBottomLeft (frameView size p) .padded) := by
  have harea := (Rect.near_ofSize size).words?_inset h.bounded
  obtain ⟨⟨hleft, hleft'⟩, -, -, hbottom, hbottom'⟩ := Rect.near_inset_ofSize size h.bounded
  unfold Decimal.shortMax at *
  refine Canvas.upholds_reckon (fun hnone => nomatch harea.symm.trans hnone) fun area hsome => ?_
  obtain rfl := Option.some.inj (harea.symm.trans hsome)
  refine Canvas.upholds_reckon (fun hnone => ?_) fun _ _ => Canvas.upholds_moveTo g _
  refine nomatch (Point.words?_eq_some_iff.2 ⟨⟨?_, ?_⟩, rfl⟩).symm.trans hnone
  · unfold Decimal.IsWord Decimal.wordMin Decimal.wordMax
    dsimp only
    omega
  · unfold Decimal.IsWord Decimal.wordMin Decimal.wordMax
    dsimp only
    omega

/-! ## The session -/

/-- Clearing up goes well. -/
theorem exists_finish_calm {w : Workspace} (hw : Calm front size config w) :
    ∃ u, finish w = .ok () u ∧ u.terminal.sink.Calm front := by
  have hclear : Upholds (Calm front size config) Never (onTerminal Terminal.clearScreen) :=
    upholds_onTerminal Terminal.calm_clearScreen
  have hrestore : Upholds (Kept (fun t => t.sink.Calm front) fun _ => True) Never
      (onTerminal Terminal.restore) := upholds_onTerminal Terminal.calm_restore
  obtain ⟨_, v, hv, hcleared⟩ := hclear.exists_ok hw
  obtain ⟨_, u, hu, hrestored⟩ := hrestore.exists_ok ⟨hcleared.terminal.sink, hcleared.lastKnown⟩
  exact ⟨u, by rw [finish, bind_of_ok hv, hu], hrestored.terminal⟩

section

variable [Text.Measure]

/-- On a terminal of unknown size there is no room for a border, so nothing of the title is
written, and all is drawn. -/
theorem exists_draw_calm (options : Options) {w : Workspace}
    (hw : Calm front Size.unknown config w) (hpanes : w.panes = []) :
    ∃ p u, IsFrame p ∧ draw options w = .ok 0 u ∧ Calm front Size.unknown config u ∧
      u.view Size.unknown 0 = frameView Size.unknown p := by
  obtain ⟨v, hv, hframe, hdraw⟩ := draw_eq_of Terminal.calm_clearScreen options hw hpanes
  have hsmall : (Rect.ofSize Size.unknown).width < 2 := by
    rw [Rect.width_ofSize]
    decide
  have hborder := Canvas.drawBorder_of_small (v := frameView Size.unknown (framePane options)) rfl
    (Rect.near_ofSize _).measured (.inl hsmall)
  rw [hdraw]
  exact exists_bordered Terminal.standing_calm (fun _ ht => ht.ready.size)
    (fun line hline => (readable_styleLines line hline).yields
      (escape_not_mem_styleLines line hline))
    (fun r line hline => (readable_layoutLines r options.wrap line hline).yields
      (escape_not_mem_layoutLines r options.wrap line hline))
    hv hframe fun _ c hc => Upholds.at_ok (hborder c) hc

theorem sparesKeys_halves (i : KeyInput) (options : Options) (frame : Nat) :
    SparesKeys i (halves options frame) := by
  refine .bind (sparesKeys_newPane _) fun left => .bind (sparesKeys_newPane _) fun right => ?_
  refine .bind (sparesKeys_changePane left _) fun _ => .bind (sparesKeys_changePane right _) ?_
  refine fun _ => .bind (sparesKeys_onPane right _) fun half => ?_
  exact .bind (sparesKeys_onPane left _) fun _ => .bind (sparesKeys_onPane right _) fun _ => .pure _

theorem sparesKeys_draw (i : KeyInput) (options : Options) : SparesKeys i (draw options) := by
  refine .bind (sparesKeys_onTerminal _) fun _ => .bind (sparesKeys_newPane _) fun frame => ?_
  refine .bind (sparesKeys_changePane frame _) fun _ => ?_
  by_cases hborder : 0 < options.borderWidth
  · rw [if_pos hborder]
    exact .bind (sparesKeys_onPane frame _) fun _ => sparesKeys_halves i options frame
  · rw [if_neg hborder]
    exact sparesKeys_halves i options frame

/-- What is done before there is a key goes well, and takes no key. -/
theorem exists_greet_calm (options : Options) {sink : Sink} (hsink : sink.Calm front)
    (script : Script) :
    ∃ u, greet options (blank sink Size.unknown options.config script) = .ok () u ∧
      Calm front Size.unknown options.config u ∧ u.keys = KeyInput.ofScript script := by
  obtain ⟨p, drawn, hframe, hdrawn, hkept, hview⟩ := exists_draw_calm options
    (w := ⟨opened sink Size.unknown options.config, [], KeyInput.ofScript script⟩)
    ⟨calm_opened hsink _ _, fun _ _ _ => trivial⟩ rfl
  have hkeys := (sparesKeys_draw _ options _ rfl).1 _ _ hdrawn
  have hmove : Upholds (Seen (Terminal.Calm front Size.unknown options.config) Size.unknown
      (drawn.view Size.unknown)) Never (onPane 0 fun v => Canvas.moveToBottomLeft v .padded) := by
    refine upholds_onPane_seen (fun _ ht => ht.ready.size) ?_
    rw [hview]
    exact hframe.upholds_moveToBottomLeft Terminal.standing_calm _
  have hpause : Yields Never (fun s => Event.escape ∉ s.content) defaultPause :=
    readable_defaultPause.yields (by decide +kernel)
  have hwrite : Upholds (Calm front Size.unknown options.config) Never
      (onPane 0 fun _ => Canvas.write defaultPause) :=
    upholds_onPane 0 fun _ => Canvas.upholds_write Terminal.standing_calm hpause
  obtain ⟨_, moved, hmoved, hseen⟩ := hmove.exists_ok ⟨hkept, fun _ => rfl⟩
  have hkeys := (sparesKeys_onPane 0 _ _ hkeys).1 _ _ hmoved
  obtain ⟨_, u, hu, hkept⟩ := hwrite.exists_ok hseen.kept
  refine ⟨u, ?_, hkept, (sparesKeys_onPane 0 _ _ hkeys).1 _ _ hu⟩
  unfold greet
  rw [bind_of_ok (opening_eq hsink.unlimited.room _ _ script), bind_of_ok hdrawn,
    bind_of_ok hmoved, hu]

/-- On a terminal of unknown size all that is done while the screen is held ends as the wait
for a key does. -/
theorem perform_eq (options : Options) {sink : Sink} (hsink : sink.Calm front) (script : Script) :
    ∃ u, u.terminal.sink.Calm front ∧
      perform options (blank sink Size.unknown options.config script) =
        match (KeyInput.ofScript script).next.1 with
        | .ok _ => .ok () u
        | .error f => .error (.terminal (.fault f)) u := by
  obtain ⟨w, hw, hkept, hkeys⟩ := exists_greet_calm options hsink script
  unfold perform
  rw [bind_of_ok hw, readKey_eq, ← hkeys]
  rcases hnext : w.keys.next with ⟨f | key, keys⟩
  · have hread : asking KeyInput.next w = .error (.terminal (.fault f)) { w with keys } := by
      rw [asking, hnext]
    exact ⟨{ w with keys }, hkept.terminal.sink, bind_of_error hread⟩
  · have hread : asking KeyInput.next w = .ok key { w with keys } := by
      rw [asking, hnext]
    have hkept : Calm front Size.unknown options.config { w with keys } :=
      ⟨hkept.terminal, hkept.lastKnown⟩
    obtain ⟨u, hu, hcalm⟩ := exists_finish_calm hkept
    exact ⟨u, hcalm, by rw [bind_of_ok hread, hu]⟩

end

/-! ## What is written in all -/

/-- The screen is taken over at the beginning, and it is given back at the end and nowhere
else. -/
structure GivesBack (output : List UInt8) : Prop where
  framed : ∃ drawn, output = Text.bytes "\x1b[?47h\x1b[?25l".toList ++ drawn ++
    Text.bytes "\x1b[0m\x1b[?25h\x1b[?47l".toList
  once : ∃! before, ∃ after, output = before ++ (Text.bytes "\x1b[?47l".toList ++ after)

theorem chars_entering : (entering.map Emission.control).flatMap Emission.chars =
    "\x1b[?47h\x1b[?25l".toList := by decide +kernel

theorem chars_leaving : (leaving.map Emission.control).flatMap Emission.chars =
    "\x1b[0m\x1b[?25h\x1b[?47l".toList := by decide +kernel

theorem write_restoreScreen : Sequence.restoreScreen.write = "\x1b[?47l".toList := by decide +kernel

/-- A sink that the screen was taken over on. -/
theorem calm_entered : (Sink.unlimited.takeAll (entering.map .control)).Calm
    (entering.map .control) := by
  have hentering : Sequence.restoreScreen ∉ entering := by decide
  have hstart : Sink.unlimited.Calm [] := ⟨⟨rfl, rfl⟩, List.nil_prefix, nofun⟩
  have hcalm := Sink.calm_takeAll hstart (Emission.harmless_map_control hentering)
  exact ⟨hcalm.unlimited, by rw [Sink.emissions_takeAll]; exact List.prefix_rfl, hcalm.harmless⟩

variable {sink : Sink}

/-- What gives the screen back stands last, after sequences and text that do not. -/
theorem exists_given_back_eq (h : sink.Calm front) :
    ∃ es : List Emission, (∀ e ∈ es, e.Harmless) ∧
      (sink.takeAll (leaving.map .control)).bytes =
        Text.bytes (es.flatMap Emission.chars ++ Sequence.restoreScreen.write) := by
  refine ⟨sink.emissions ++ [.control .reset, .control .showCursor], ?_, ?_⟩
  · have hleaving : Sequence.restoreScreen ∉ [Sequence.reset, .showCursor] := by decide
    exact List.forall_mem_append.2 ⟨h.harmless, Emission.harmless_map_control hleaving⟩
  · have hlast : (leaving.map Emission.control).flatMap Emission.chars =
        [Emission.control .reset, .control .showCursor].flatMap Emission.chars ++
          Sequence.restoreScreen.write := by decide +kernel
    rw [Sink.bytes_of_unlimited (Sink.unlimited_takeAll h.unlimited _), Sink.text_takeAll, hlast,
      List.flatMap_append, ← List.append_assoc]
    rfl

theorem givesBack_of_calm (h : sink.Calm (entering.map .control)) :
    GivesBack (sink.takeAll (leaving.map .control)).bytes := by
  constructor
  · obtain ⟨drawn, hdrawn⟩ := h.begins
    refine ⟨Text.bytes (drawn.flatMap Emission.chars), ?_⟩
    rw [Sink.bytes_of_unlimited (Sink.unlimited_takeAll h.unlimited _), Sink.text_takeAll,
      Sink.text, ← hdrawn, List.flatMap_append, chars_entering, chars_leaving, Text.bytes_append,
      Text.bytes_append]
  · obtain ⟨es, hes, hgiven⟩ := exists_given_back_eq h
    rw [hgiven, ← write_restoreScreen]
    refine ⟨Text.bytes (es.flatMap Emission.chars), ⟨[], ?_⟩, ?_⟩
    · rw [List.append_nil, Text.bytes_append]
    · rintro before ⟨after, hafter⟩
      have hall : Sequence.restoreScreen.write.all (·.toNat < 128) = true := by decide +kernel
      have hascii : ∀ c ∈ Sequence.restoreScreen.write, c.toNat < 128 := by simpa using hall
      obtain ⟨front, back, rfl, hback⟩ :=
        Text.of_append_bytes_append hascii (by decide) hafter.symm
      rw [Emission.eq_of_restoreScreen hes hback]

/-- What is told where there was no key. -/
theorem remark_inputClosed : remark (PaneError.message (.terminal (.fault .inputClosed))) =
    "perdita: terminal i/o error: input closed while waiting for a key\n" := by decide +kernel

/-- On pipes the screen is given back, whether or not there is a key. With a key the run
gives it back itself. Without one that is left to the end of the hold. -/
theorem runWith_of_bytes [Text.Measure] (options : Options) {script : Script}
    (hscript : ∀ read ∈ script, ∃ bs, read = .bytes bs) :
    ∃ output, GivesBack output ∧ runWith options Size.unknown script =
      match (KeyInput.ofScript script).next.1 with
      | .ok _ => ⟨0, output, ""⟩
      | .error _ => ⟨1, output,
        "perdita: terminal i/o error: input closed while waiting for a key\n"⟩ := by
  obtain ⟨u, hcalm, hperform⟩ := perform_eq options calm_entered script
  have hroom : Sink.unlimited.room = none := rfl
  refine ⟨_, givesBack_of_calm hcalm, ?_⟩
  unfold runWith session
  cases hkey : (KeyInput.ofScript script).next.1 with
  | ok key =>
    rw [hkey] at hperform
    rw [Stage.run_of_ok hroom hperform hcalm.unlimited.room]
    dsimp only
    rw [Stage.output, Stage.drop_of_not_held rfl]
    rfl
  | error f =>
    rw [hkey] at hperform
    rw [Stage.run_of_error hroom hperform, KeyInput.eq_inputClosed_of_readKey hscript hkey]
    dsimp only
    rw [Stage.output, Stage.drop_held hcalm.unlimited.room, remark_inputClosed]
    rfl

/-- However the showcase ends on pipes, the screen is given back. A command line that cannot
be read is told of in code 2, and then nothing is written. Help is written without taking
over the screen. In every other run the screen is taken over first, and it is given back
once, at the end. Whether there was a key in the input decides what else is told. -/
theorem the_screen_is_always_given_back [Text.Measure] (args : List Text)
    (pieces : List (List UInt8)) :
    let script := Script.ofChunks (pieces.map .bytes)
    let report := run args none Size.unknown script
    match Request.read args with
    | .error _ => report.code = 2 ∧ report.output = []
    | .ok .help => report = ⟨0, Text.bytes usage.toList, ""⟩
    | .ok (.run _) => GivesBack report.output ∧
      match (KeyInput.ofScript script).next.1 with
      | .ok _ => report.code = 0 ∧ report.errors = ""
      | .error _ => report.code = 1 ∧
        report.errors =
          "perdita: terminal i/o error: input closed while waiting for a key\n" := by
  intro script report
  have hreport : report = run args none Size.unknown script := rfl
  rw [hreport, run]
  cases hargs : Request.read args with
  | error e => exact ⟨rfl, rfl⟩
  | ok request =>
    cases request with
    | help => rfl
    | run options =>
      obtain ⟨output, hgives, hrun⟩ := runWith_of_bytes options Script.bytes_of_mem_ofChunks
      dsimp only
      rw [hrun]
      cases (KeyInput.ofScript script).next.1 with
      | ok key => exact ⟨hgives, rfl, rfl⟩
      | error f => exact ⟨hgives, rfl, String.empty_append⟩

end Showcase

end TerminalPanes
