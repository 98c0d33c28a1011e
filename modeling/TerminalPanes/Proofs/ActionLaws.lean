-- The laws of actions. An action takes a state, and it ends with a result or
-- an error and with a new state in both cases. Here one action after another is
-- taken apart, and what its parts uphold is carried to the whole.

namespace TerminalPanes

variable {ε σ α β : Type}

/-! ## Actions one after another -/

section

variable {m : EStateM ε σ α} {f : α → EStateM ε σ β} {s u : σ}

theorem bind_of_ok {a : α} (h : m s = .ok a u) : (m >>= f) s = f a u := by
  change EStateM.bind m f s = f a u
  rw [EStateM.bind, h]

theorem bind_of_error {e : ε} (h : m s = .error e u) : (m >>= f) s = .error e u := by
  change EStateM.bind m f s = .error e u
  rw [EStateM.bind, h]

theorem of_bind_ok {b : β} (h : (m >>= f) s = .ok b u) :
    ∃ a v, m s = .ok a v ∧ f a v = .ok b u := by
  cases hm : m s with
  | ok a v => exact ⟨a, v, rfl, by rw [← h, bind_of_ok hm]⟩
  | error e v => rw [bind_of_error hm] at h; contradiction

theorem of_bind_error {e : ε} (h : (m >>= f) s = .error e u) :
    m s = .error e u ∨ ∃ a v, m s = .ok a v ∧ f a v = .error e u := by
  cases hm : m s with
  | ok a v => exact .inr ⟨a, v, rfl, by rw [← h, bind_of_ok hm]⟩
  | error e' v =>
    rw [bind_of_error hm] at h
    cases h
    exact .inl rfl

end

/-! ## Actions on a part -/

/-- The end of an action on a part of a state as the end of one on the whole. -/
def liftEnd {δ τ : Type} (leave : σ → τ) (tell : ε → δ) :
    EStateM.Result ε σ α → EStateM.Result δ τ α
  | .ok a s => .ok a (leave s)
  | .error e s => .error (tell e) (leave s)

theorem of_liftEnd_ok {δ τ : Type} {leave : σ → τ} {tell : ε → δ} {r : EStateM.Result ε σ α}
    {a : α} {t : τ} (h : liftEnd leave tell r = .ok a t) : ∃ s, r = .ok a s ∧ t = leave s := by
  cases r with
  | ok b s =>
    cases h
    exact ⟨s, rfl, rfl⟩
  | error e s => cases h

/-! ## What an action upholds -/

/-- From a state with `P` the action comes to one with `P`, however it ends, and
the errors that it ends with have `E`. -/
def Upholds (P : σ → Prop) (E : ε → Prop) (m : EStateM ε σ α) : Prop :=
  ∀ s, P s → (∀ a u, m s = .ok a u → P u) ∧ ∀ e u, m s = .error e u → P u ∧ E e

namespace Upholds

variable {P : σ → Prop} {E : ε → Prop}

theorem at_ok {m : EStateM ε σ α} {s u : σ} {a : α} (h : m s = .ok a u) (hu : P u) :
    (∀ b v, m s = .ok b v → P v) ∧ ∀ e v, m s = .error e v → P v ∧ E e := by
  rw [h]
  refine ⟨fun b v hv => ?_, fun e v hv => ?_⟩
  · cases hv
    exact hu
  · cases hv

theorem at_error {m : EStateM ε σ α} {s u : σ} {e : ε} (h : m s = .error e u) (hu : P u)
    (he : E e) : (∀ b v, m s = .ok b v → P v) ∧ ∀ e v, m s = .error e v → P v ∧ E e := by
  rw [h]
  refine ⟨fun b v hv => ?_, fun e' v hv => ?_⟩
  · cases hv
  · cases hv
    exact ⟨hu, he⟩

/-- What says nothing is always upheld. -/
theorem always (m : EStateM ε σ α) : Upholds (fun _ => True) (fun _ => True) m :=
  fun _ _ => ⟨fun _ _ _ => trivial, fun _ _ _ => ⟨trivial, trivial⟩⟩

theorem pure (a : α) : Upholds P E (Pure.pure a : EStateM ε σ α) := fun _ hs => at_ok rfl hs

theorem bind {m : EStateM ε σ α} {f : α → EStateM ε σ β} (hm : Upholds P E m)
    (hf : ∀ a, Upholds P E (f a)) : Upholds P E (m >>= f) := by
  intro s hs
  obtain ⟨hok, herror⟩ := hm s hs
  cases h : m s with
  | ok a u =>
    rw [bind_of_ok h]
    exact hf a u (hok a u h)
  | error e u =>
    obtain ⟨hu, he⟩ := herror e u h
    exact at_error (bind_of_error h) hu he

/-- The state that is looked at has what is upheld. -/
theorem get_bind {f : σ → EStateM ε σ β} (hf : ∀ s, P s → Upholds P E (f s)) :
    Upholds P E (get >>= f) := by
  intro s hs
  have h : (get : EStateM ε σ σ) s = .ok s s := rfl
  rw [bind_of_ok h]
  exact hf s hs s hs

theorem modify {f : σ → σ} (hf : ∀ s, P s → P (f s)) :
    Upholds P E (modify f : EStateM ε σ Unit) := fun s hs => at_ok rfl (hf s hs)

theorem throw {e : ε} (he : E e) : Upholds P E (MonadExcept.throw e : EStateM ε σ α) :=
  fun _ hs => at_error rfl hs he

theorem forM {ι : Type} {f : ι → EStateM ε σ Unit} (hf : ∀ i, Upholds P E (f i)) (is : List ι) :
    Upholds P E (is.forM f) := by
  induction is with
  | nil => exact pure ()
  | cons i rest ih => exact bind (hf i) fun _ => ih

/-- An error may be said to be less than it is. -/
theorem weaken {E' : ε → Prop} {m : EStateM ε σ α} (hm : Upholds P E m) (h : ∀ e, E e → E' e) :
    Upholds P E' m := by
  intro s hs
  obtain ⟨hok, herror⟩ := hm s hs
  exact ⟨hok, fun e u he => ⟨(herror e u he).1, h e (herror e u he).2⟩⟩

/-- An action that fails with no error ends well. -/
theorem exists_ok {m : EStateM ε σ α} (hm : Upholds P (fun _ => False) m) {s : σ} (hs : P s) :
    ∃ a u, m s = .ok a u ∧ P u := by
  obtain ⟨hok, herror⟩ := hm s hs
  cases h : m s with
  | ok a u => exact ⟨a, u, rfl, hok a u h⟩
  | error e u => exact (herror e u h).2.elim

/-- What an action on a part upholds of the part, it upholds of the whole. -/
theorem within {δ τ : Type} {Q : τ → Prop} {F : δ → Prop} {leave : τ → σ → τ} {tell : ε → δ}
    {look : τ → σ} {m : τ → EStateM ε σ α} {whole : EStateM δ τ α}
    (heq : ∀ t, whole t = liftEnd (leave t) tell (m t (look t)))
    (hm : ∀ t, Upholds P (fun e => F (tell e)) (m t)) (hlook : ∀ t, Q t → P (look t))
    (hleave : ∀ t s, Q t → P s → Q (leave t s)) : Upholds Q F whole := by
  intro t ht
  obtain ⟨hok, herror⟩ := hm t (look t) (hlook t ht)
  cases h : m t (look t) with
  | ok a s => exact at_ok (by rw [heq, h]; rfl) (hleave t s ht (hok a s h))
  | error e s =>
    obtain ⟨hs, he⟩ := herror e s h
    exact at_error (by rw [heq, h]; rfl) (hleave t s ht hs) he

end Upholds

end TerminalPanes
