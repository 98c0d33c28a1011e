-- Text attributes and sets of them. A set is a record of eight flags, and
-- every operation on sets works flag by flag, so a law about sets is a law
-- about one flag.

namespace TerminalPanes

inductive Attribute where
  | bold
  | dim
  | italic
  | underline
  | blink
  | inverse
  | hidden
  | strikethrough
  deriving DecidableEq, Repr

namespace Attribute

/-- All attributes, in the order in which they are switched. -/
def all : List Attribute :=
  [.bold, .dim, .italic, .underline, .blink, .inverse, .hidden, .strikethrough]

/-- The rendition code that turns the attribute on. -/
def onCode : Attribute → Nat
  | .bold => 1
  | .dim => 2
  | .italic => 3
  | .underline => 4
  | .blink => 5
  | .inverse => 7
  | .hidden => 8
  | .strikethrough => 9

/-- The rendition code that turns the attribute off. Bold and dim share one. -/
def offCode : Attribute → Nat
  | .bold | .dim => 22
  | .italic => 23
  | .underline => 24
  | .blink => 25
  | .inverse => 27
  | .hidden => 28
  | .strikethrough => 29

end Attribute

/-- A set of attributes. -/
structure Attributes where
  bold : Bool
  dim : Bool
  italic : Bool
  underline : Bool
  blink : Bool
  inverse : Bool
  hidden : Bool
  strikethrough : Bool
  deriving DecidableEq, Repr

namespace Attributes

def has (s : Attributes) : Attribute → Bool
  | .bold => s.bold
  | .dim => s.dim
  | .italic => s.italic
  | .underline => s.underline
  | .blink => s.blink
  | .inverse => s.inverse
  | .hidden => s.hidden
  | .strikethrough => s.strikethrough

/-- The attributes that pass a test. -/
def ofTest (f : Attribute → Bool) : Attributes :=
  ⟨f .bold, f .dim, f .italic, f .underline, f .blink, f .inverse, f .hidden, f .strikethrough⟩

@[simp] theorem has_ofTest (f : Attribute → Bool) (a : Attribute) : (ofTest f).has a = f a := by
  cases a <;> rfl

@[ext] theorem ext {s t : Attributes} (h : ∀ a, s.has a = t.has a) : s = t := by
  have hb := h .bold
  have hd := h .dim
  have hi := h .italic
  have hu := h .underline
  have hk := h .blink
  have hv := h .inverse
  have hh := h .hidden
  have hs := h .strikethrough
  cases s
  cases t
  simp_all [has]

def empty : Attributes := ofTest fun _ => false

def all : Attributes := ofTest fun _ => true

def single (a : Attribute) : Attributes := ofTest (a == ·)

instance : Union Attributes := ⟨fun s t => ofTest fun a => s.has a || t.has a⟩

instance : Inter Attributes := ⟨fun s t => ofTest fun a => s.has a && t.has a⟩

instance : SDiff Attributes := ⟨fun s t => ofTest fun a => s.has a && !t.has a⟩

@[simp] theorem has_empty (a : Attribute) : empty.has a = false := has_ofTest _ a

@[simp] theorem has_union (s t : Attributes) (a : Attribute) :
    (s ∪ t).has a = (s.has a || t.has a) := has_ofTest _ a

@[simp] theorem has_inter (s t : Attributes) (a : Attribute) :
    (s ∩ t).has a = (s.has a && t.has a) := has_ofTest _ a

@[simp] theorem has_sdiff (s t : Attributes) (a : Attribute) :
    (s \ t).has a = (s.has a && !t.has a) := has_ofTest _ a

/-- Whether every attribute of `t` is in `s`. -/
def includes (s t : Attributes) : Bool :=
  Attribute.all.all fun a => !t.has a || s.has a

/-- The attributes of the set, in the order in which they are switched. -/
def toList (s : Attributes) : List Attribute := Attribute.all.filter s.has

@[simp] theorem mem_toList {s : Attributes} {a : Attribute} : a ∈ s.toList ↔ s.has a = true := by
  cases a <;> simp [toList, Attribute.all]

/-- The attribute of a set that holds exactly one. -/
def only? (s : Attributes) : Option Attribute :=
  match s.toList with
  | [a] => some a
  | _ => none

end Attributes

end TerminalPanes
