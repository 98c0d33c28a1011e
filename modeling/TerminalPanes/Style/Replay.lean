-- The style of a terminal as it follows from the stream it takes in. It reads
-- the characters of the stream and knows nothing of what was meant by them.
-- Every sequence of this library does to it what its name says.
import TerminalPanes.Escape.Stream
import TerminalPanes.Style.Basic

namespace TerminalPanes.Style

/-! ## Obeying -/

/-- What one rendition code does. -/
def switch (s : Style) : Int → Style
  | 0 => plain
  | 1 => s.enable (Attributes.single .bold)
  | 2 => s.enable (Attributes.single .dim)
  | 3 => s.enable (Attributes.single .italic)
  | 4 => s.enable (Attributes.single .underline)
  | 5 => s.enable (Attributes.single .blink)
  | 7 => s.enable (Attributes.single .inverse)
  | 8 => s.enable (Attributes.single .hidden)
  | 9 => s.enable (Attributes.single .strikethrough)
  | 22 => s.disable (Attributes.single .bold ∪ Attributes.single .dim)
  | 23 => s.disable (Attributes.single .italic)
  | 24 => s.disable (Attributes.single .underline)
  | 25 => s.disable (Attributes.single .blink)
  | 27 => s.disable (Attributes.single .inverse)
  | 28 => s.disable (Attributes.single .hidden)
  | 29 => s.disable (Attributes.single .strikethrough)
  | _ => s

/-- What the numbers of one command do. A colour takes five of them. -/
def render (s : Style) : List Int → Style
  | [] => s
  | 38 :: 2 :: r :: g :: b :: rest => render (s.withForeground ⟨r, g, b⟩) rest
  | 48 :: 2 :: r :: g :: b :: rest => render (s.withBackground ⟨r, g, b⟩) rest
  | code :: rest => render (s.switch code) rest

/-- The numbers between the semicolons of a command. -/
def numbers? (parameters : Text) : Option (List Int) :=
  (parameters.splitOn ';').mapM Decimal.readInt?

/-- What a terminal does with its style. Only a command that ends in `m` is for
the style. -/
def obey (s : Style) : Event → Style
  | .command parameters 'm' =>
    match numbers? parameters with
    | some codes => s.render codes
    | none => s
  | _ => s

/-- The style after a stream. -/
def replay (s : Style) (events : List Event) : Style := events.foldl obey s

@[simp] theorem replay_nil (s : Style) : s.replay [] = s := rfl

theorem replay_append (s : Style) (before after : List Event) :
    s.replay (before ++ after) = (s.replay before).replay after :=
  List.foldl_append

/-! ## Text leaves the style -/

theorem replay_shown (s : Style) (t : Text) : s.replay (t.map .shown) = s := by
  induction t with
  | nil => rfl
  | cons c rest ih => exact ih

/-! ## Sequences do what they say -/

theorem numbers?_write (n : Int) : numbers? (Decimal.write n) = some [n] := by
  rw [numbers?, List.splitOn_eq_singleton (Decimal.not_mem_write rfl (by decide) n)]
  simp

theorem numbers?_append {n : Int} {rest : Text} {codes : List Int}
    (h : numbers? rest = some codes) :
    numbers? (Decimal.write n ++ ';' :: rest) = some (n :: codes) := by
  rw [numbers?, List.splitOn_append_cons_self_of_not_mem (Decimal.not_mem_write rfl (by decide) n)]
  rw [numbers?] at h
  simp [h]

theorem numbers?_channels (c : Color) :
    numbers? (Sequence.channels c) = some [c.red, c.green, c.blue] :=
  numbers?_append (numbers?_append (numbers?_write c.blue))

theorem numbers?_color (code : Int) (c : Color) :
    numbers? (Decimal.write code ++ ';' :: '2' :: ';' :: Sequence.channels c) =
      some [code, 2, c.red, c.green, c.blue] :=
  numbers?_append (numbers?_append (n := 2) (numbers?_channels c))

/-- What a sequence is meant to do with the style. -/
def told (s : Style) : Sequence → Style
  | .reset => plain
  | .rendition code => s.switch code
  | .foreground c => s.withForeground c
  | .background c => s.withBackground c
  | _ => s

theorem render_single (s : Style) (code : Int) : s.render [code] = s.switch code := by
  rw [render]
  · rfl
  all_goals simp

theorem obey_ofSequence (s : Style) (q : Sequence) : s.obey (Event.ofSequence q) = s.told q := by
  cases q with
  | reset => rfl
  | rendition code =>
    have h : numbers? (Decimal.writeNat code) = some [(code : Int)] := numbers?_write code
    simp only [Event.ofSequence, Sequence.parameters, Sequence.final, obey, h]
    exact render_single s code
  | foreground c =>
    have h : numbers? (['3', '8', ';', '2', ';'] ++ Sequence.channels c) = _ := numbers?_color 38 c
    simp only [Event.ofSequence, Sequence.parameters, Sequence.final, obey, h]
    rfl
  | background c =>
    have h : numbers? (['4', '8', ';', '2', ';'] ++ Sequence.channels c) = _ := numbers?_color 48 c
    simp only [Event.ofSequence, Sequence.parameters, Sequence.final, obey, h]
    rfl
  | erase what => cases what <;> rfl
  | cursorTo p => rfl
  | hideCursor => rfl
  | showCursor => rfl
  | saveScreen => rfl
  | restoreScreen => rfl

/-- A sequence in the stream does what it is meant to do. -/
theorem replay_write (s : Style) (q : Sequence) (rest : Text) :
    s.replay (Event.read (q.write ++ rest)) = (s.told q).replay (Event.read rest) := by
  rw [Event.read_write_append]
  exact congrArg (replay · (Event.read rest)) (obey_ofSequence s q)

end TerminalPanes.Style
