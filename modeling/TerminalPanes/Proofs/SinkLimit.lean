-- What a limit does to an action. Over a sink that takes so many bytes an
-- action ends as it does over a sink that takes everything, as long as it
-- stays within, and it fails with what it sent cut at the limit where it goes
-- beyond. This holds of what sends one emission and of what sends nothing. It
-- is kept when actions follow one another, so it holds of every terminal
-- operation.
import TerminalPanes.Proofs.OperationParts
import TerminalPanes.Proofs.RefusedEmission

namespace TerminalPanes

/-! ## The sink -/

namespace Sink

/-- A sink that takes everything and has taken everything. -/
structure Unlimited (s : Sink) : Prop where
  room : s.room = none
  cut : s.cut = []

/-- The sink as it would be if it took so many bytes in all. -/
def limited (n : Nat) (s : Sink) : Sink := { s with room := some (n - s.bytes.length) }

variable {s : Sink} {n : Nat}

theorem bytes_take (h : s.Unlimited) (e : Emission) : (s.take e).bytes = s.bytes ++ e.bytes := by
  simp [bytes, emissions, take, h.cut]

theorem unlimited_take (h : s.Unlimited) (e : Emission) : (s.take e).Unlimited :=
  ⟨room_takeAll h.room [e], h.cut⟩

theorem offer_limited_of_le (h : s.Unlimited) {e : Emission}
    (hle : (s.bytes ++ e.bytes).length ≤ n) :
    (s.limited n).offer e = (true, (s.take e).limited n) := by
  have hbytes := bytes_take h e
  rw [List.length_append] at hle
  have hroom : roomAfter? (some (n - s.bytes.length)) e =
      some (some (n - (s.take e).bytes.length)) := by
    rw [roomAfter?, if_pos (by omega), hbytes, List.length_append, Nat.sub_sub]
  simp only [offer, limited, hroom]
  rfl

theorem offer_limited_of_lt (h : s.Unlimited) {e : Emission} (hle : s.bytes.length ≤ n)
    (hlt : n < (s.bytes ++ e.bytes).length) :
    ∃ s', (s.limited n).offer e = (false, s') ∧ s'.bytes = (s.bytes ++ e.bytes).take n := by
  rw [List.length_append] at hlt
  have hroom : roomAfter? (some (n - s.bytes.length)) e = none := by
    rw [roomAfter?, if_neg (by omega)]
  refine ⟨{ s with cut := s.cut ++ e.bytes.take (n - s.bytes.length), room := some 0 }, ?_, ?_⟩
  · simp only [offer, limited, hroom, Option.getD_some]
  · rw [List.take_append, List.take_of_length_le hle]
    simp [bytes, emissions, h.cut]

end Sink

/-! ## Actions over a limit -/

/-- A state that holds a sink, and the failure that tells that the sink is full. -/
class HasSink (σ : Type) (ε : outParam Type) where
  sink : σ → Sink
  onSink : σ → Sink → σ
  full : ε

instance : HasSink Terminal TerminalError where
  sink := Terminal.sink
  onSink := Terminal.onSink
  full := .fault .sinkFull

namespace HasSink

variable {σ ε : Type} [HasSink σ ε] {α β : Type}

/-- The bytes that were taken so far. -/
def bytes (s : σ) : List UInt8 := (sink s).bytes

/-- The state over a sink that takes so many bytes in all. -/
def limited (n : Nat) (s : σ) : σ := onSink s ((sink s).limited n)

/-- The state in which an action ended. -/
def left : EStateM.Result ε σ α → σ
  | .ok _ s => s
  | .error _ s => s

/-- The same end over a sink that takes so many bytes in all. -/
def limitedEnd (n : Nat) : EStateM.Result ε σ α → EStateM.Result ε σ α
  | .ok a s => .ok a (limited n s)
  | .error e s => .error e (limited n s)

/-- How an action ends from a state with a sink that takes everything, and over
limits: not for want of room, the same way over every limit that its bytes are
within, and with its bytes cut over every other. -/
structure StopsFrom (s : σ) (r : EStateM.Result ε σ α) (capped : Nat → EStateM.Result ε σ α) :
    Prop where
  unlimited : (sink (left r)).Unlimited
  grows : bytes s <+: bytes (left r)
  not_full : ∀ {u}, r ≠ .error (full σ) u
  within : ∀ {n}, (bytes (left r)).length ≤ n → capped n = limitedEnd n r
  beyond : ∀ {n}, (bytes s).length ≤ n → n < (bytes (left r)).length →
    ∃ u, capped n = .error (full σ) u ∧ bytes u = (bytes (left r)).take n

/-- The action stops where its sink does, and for no other want of room. -/
def Stops (m : EStateM ε σ α) : Prop :=
  ∀ s, (sink s).Unlimited → StopsFrom s (m s) fun n => m (limited n s)

namespace StopsFrom

variable {s : σ} {p : EStateM.Result ε σ α} {r : EStateM.Result ε σ β}

/-- Nothing is sent. -/
theorem still (hs : (sink s).Unlimited) (hsink : sink (left r) = sink s)
    (hfull : ∀ {u}, r ≠ .error (full σ) u) : StopsFrom s r fun n => limitedEnd n r where
  unlimited := by rwa [hsink]
  grows := by
    have hsame : bytes s = bytes (left r) := congrArg Sink.bytes hsink.symm
    exact hsame ▸ List.prefix_rfl
  not_full := hfull
  within _ := rfl
  beyond hle hlt := by
    rw [bytes, hsink] at hlt
    exact absurd hlt (Nat.not_lt.2 hle)

/-- A part of an action, and what follows it. What follows begins over a limit as it
does without one if the part is within, and is left out if it is not. -/
theorem trans {part rest capped : Nat → EStateM.Result ε σ _} (hpart : StopsFrom s p part)
    (hrest : StopsFrom (left p) r rest)
    (hgoes : ∀ {n}, part n = limitedEnd n p → capped n = rest n)
    (hfails : ∀ {n u}, part n = .error (full σ) u → capped n = .error (full σ) u) :
    StopsFrom s r capped where
  unlimited := hrest.unlimited
  grows := hpart.grows.trans hrest.grows
  not_full := hrest.not_full
  within := by
    intro n hle
    have hu := Nat.le_trans hrest.grows.length_le hle
    rw [hgoes (hpart.within hu), hrest.within hle]
  beyond := by
    intro n hs hlt
    by_cases hu : (bytes (left p)).length ≤ n
    · rw [hgoes (hpart.within hu)]
      exact hrest.beyond hu hlt
    · -- the part is beyond already, and what follows only makes the whole longer
      obtain ⟨v, herror, hv⟩ := hpart.beyond hs (Nat.lt_of_not_le hu)
      obtain ⟨later, hlater⟩ := hrest.grows
      refine ⟨v, hfails herror, ?_⟩
      rw [hv, ← hlater, List.take_append_of_le_length (Nat.le_of_not_le hu)]

end StopsFrom

namespace Stops

variable {m : EStateM ε σ α}

/-- An action that sends nothing and is blind to the sink. -/
theorem of_still (hsink : ∀ s, sink (left (m s)) = sink s)
    (hfull : ∀ {s u}, m s ≠ .error (full σ) u)
    (hlimited : ∀ n s, m (limited n s) = limitedEnd n (m s)) : Stops m := by
  intro s hs
  have hover : (fun n => m (limited n s)) = fun n => limitedEnd n (m s) :=
    funext fun n => hlimited n s
  rw [hover]
  exact .still hs (hsink s) hfull

theorem pure (a : α) : Stops (Pure.pure a : EStateM ε σ α) :=
  of_still (fun _ => rfl) (fun h => nomatch h) fun _ _ => rfl

theorem throw {e : ε} (he : e ≠ full σ) : Stops (MonadExcept.throw e : EStateM ε σ α) := by
  refine of_still (fun _ => rfl) ?_ fun _ _ => rfl
  intro s u h
  cases h
  exact he rfl

theorem modify {f : σ → σ} (hsink : ∀ s, sink (f s) = sink s)
    (hlimited : ∀ n s, f (limited n s) = limited n (f s)) :
    Stops (modify f : EStateM ε σ Unit) :=
  of_still hsink (fun h => nomatch h) fun n s => congrArg (EStateM.Result.ok ()) (hlimited n s)

/-- The state that is looked at is the same over any limit. -/
theorem get_bind {f : σ → EStateM ε σ β} (hget : ∀ n s, f (limited n s) = f s)
    (hf : ∀ s, Stops (f s)) : Stops (get >>= f) := by
  intro s hs
  have hlook : ∀ s, (get >>= f) s = f s s := fun _ => bind_of_ok rfl
  have hover : (fun n => (get >>= f) (limited n s)) = fun n => f s (limited n s) := by
    funext n
    rw [hlook, hget]
  rw [hlook, hover]
  exact hf s s hs

/-- An action, and what follows when it ends well. Some of its failures may be
passed over, but not that the sink is full. -/
theorem followed {m' : EStateM ε σ β} {f : α → EStateM ε σ β} (pass? : ε → Option β)
    (hok : ∀ {s a u}, m s = .ok a u → m' s = f a u)
    (hpass : ∀ {s e u b}, pass? e = some b → m s = .error e u → m' s = .ok b u)
    (hfail : ∀ {s e u}, pass? e = none → m s = .error e u → m' s = .error e u)
    (hfull : pass? (full σ) = none) (hm : Stops m) (hf : ∀ a, Stops (f a)) : Stops m' := by
  intro s hs
  have hpart := hm s hs
  cases h : m s with
  | ok a u =>
    rw [hok h]
    rw [h] at hpart
    exact hpart.trans (hf a u hpart.unlimited) hok (hfail hfull)
  | error e u =>
    rw [h] at hpart
    cases hp : pass? e with
    | some b =>
      rw [hpass hp h]
      exact hpart.trans (.still hpart.unlimited rfl fun h => nomatch h) (hpass hp) (hfail hfull)
    | none =>
      have hnot : ∀ {v}, (.error e u : EStateM.Result ε σ β) ≠ .error (full σ) v := by
        intro v hv
        cases hv
        exact hpart.not_full rfl
      rw [hfail hp h]
      exact hpart.trans (.still hpart.unlimited rfl hnot) (hfail hp) (hfail hfull)

theorem bind {f : α → EStateM ε σ β} (hm : Stops m) (hf : ∀ a, Stops (f a)) :
    Stops (m >>= f) :=
  followed (fun _ => none) bind_of_ok (fun h => nomatch h) (fun _ => bind_of_error) rfl hm hf

theorem forM {ι : Type} {f : ι → EStateM ε σ Unit} (hf : ∀ i, Stops (f i)) (is : List ι) :
    Stops (is.forM f) := by
  induction is with
  | nil => exact pure ()
  | cons i rest ih => exact bind (hf i) fun _ => ih

end Stops

/-! ## Parts of a state -/

/-- A part of a state that holds its sink, and how a failure in it is reported. -/
structure Part (σ τ : Type) {ε δ : Type} [HasSink σ ε] [HasSink τ δ] where
  inner : τ → σ
  outer : τ → σ → τ
  wrap : ε → δ
  sink_inner : ∀ t, sink (inner t) = sink t
  sink_outer : ∀ t s, sink (outer t s) = sink s
  limited_inner : ∀ n t, inner (limited n t) = limited n (inner t)
  limited_outer : ∀ n t s, outer (limited n t) (limited n s) = limited n (outer t s)
  wrap_full : ∀ {e}, wrap e = full τ ↔ e = full σ

namespace Part

variable {τ δ : Type} [HasSink τ δ]

/-- The end of an action on the part as the end of an action on the whole. -/
def wrapEnd (p : Part σ τ) (t : τ) : EStateM.Result ε σ α → EStateM.Result δ τ α
  | .ok a s => .ok a (p.outer t s)
  | .error e s => .error (p.wrap e) (p.outer t s)

theorem left_wrapEnd (p : Part σ τ) (t : τ) (r : EStateM.Result ε σ α) :
    left (p.wrapEnd t r) = p.outer t (left r) := by
  cases r <;> rfl

theorem bytes_wrapEnd (p : Part σ τ) (t : τ) (r : EStateM.Result ε σ α) :
    bytes (left (p.wrapEnd t r)) = bytes (left r) := by
  rw [left_wrapEnd, bytes, p.sink_outer, bytes]

theorem wrapEnd_limitedEnd (p : Part σ τ) (n : Nat) (t : τ) (r : EStateM.Result ε σ α) :
    p.wrapEnd (limited n t) (limitedEnd n r) = limitedEnd n (p.wrapEnd t r) := by
  cases r with
  | ok a s => exact congrArg (EStateM.Result.ok a) (p.limited_outer n t s)
  | error e s => exact congrArg (EStateM.Result.error (p.wrap e)) (p.limited_outer n t s)

theorem wrapEnd_eq_full {p : Part σ τ} {t u : τ} {r : EStateM.Result ε σ α}
    (h : p.wrapEnd t r = .error (full τ) u) : ∃ s, r = .error (full σ) s := by
  cases r with
  | ok a s => cases h
  | error e s =>
    obtain ⟨hwrap, -⟩ := EStateM.Result.error.inj h
    exact ⟨s, by rw [p.wrap_full.1 hwrap]⟩

/-- An action on the part stops as an action on the whole. Which action it is may
hang on the whole, but not on the sink. -/
theorem stops (p : Part σ τ) {m : τ → EStateM ε σ α} {m' : EStateM δ τ α}
    (heq : ∀ t, m' t = p.wrapEnd t (m t (p.inner t)))
    (hblind : ∀ n t, m (limited n t) = m t) (hm : ∀ t, Stops (m t)) : Stops m' := by
  intro t ht
  rw [← p.sink_inner] at ht
  have hpart := hm t (p.inner t) ht
  have hstart : bytes t = bytes (p.inner t) := congrArg Sink.bytes (p.sink_inner t).symm
  have hover : ∀ n, m' (limited n t) =
      p.wrapEnd (limited n t) (m t (limited n (p.inner t))) := by
    intro n
    rw [heq, hblind, p.limited_inner]
  rw [heq]
  refine ⟨?_, ?_, fun h => ?_, fun hle => ?_, ?_⟩
  · rw [left_wrapEnd, p.sink_outer]
    exact hpart.unlimited
  · rw [bytes_wrapEnd, hstart]
    exact hpart.grows
  · obtain ⟨s, hs⟩ := wrapEnd_eq_full h
    exact hpart.not_full hs
  · rw [bytes_wrapEnd] at hle
    rw [hover, hpart.within hle, wrapEnd_limitedEnd]
  · intro n hle hlt
    rw [bytes_wrapEnd] at hlt ⊢
    rw [hstart] at hle
    obtain ⟨u, herror, hu⟩ := hpart.beyond hle hlt
    refine ⟨p.outer (limited n t) u, ?_, ?_⟩
    · rw [hover, herror, wrapEnd, p.wrap_full.2 rfl]
    · rw [bytes, p.sink_outer]
      exact hu

end Part

end HasSink

/-! ## Terminal operations -/

namespace Terminal

open HasSink

theorem stops_emit (e : Emission) : Stops (emit e) := by
  intro t ht
  have hoffer := Sink.offer_of_unlimited (s := t.sink) ht.room e
  have hbytes : bytes (t.onSink (t.sink.take e)) = t.sink.bytes ++ e.bytes :=
    Sink.bytes_take ht e
  rw [emit_of_taken hoffer]
  refine ⟨Sink.unlimited_take ht e, ⟨e.bytes, hbytes.symm⟩, (fun h => nomatch h), ?_, ?_⟩
  · intro n hle
    rw [left, hbytes] at hle
    exact emit_of_taken (Sink.offer_limited_of_le ht hle)
  · intro n hle hlt
    rw [left, hbytes] at hlt
    obtain ⟨s, hoffer, hs⟩ := Sink.offer_limited_of_lt ht hle hlt
    refine ⟨_, emit_of_refused hoffer, ?_⟩
    rw [left, hbytes]
    exact hs

theorem stops_setHistory (history : History) : Stops (setHistory history) :=
  Stops.modify (fun _ => rfl) fun _ _ => rfl

theorem stops_currentCell : Stops currentCell := by
  apply Stops.get_bind fun _ _ => rfl
  intro t
  split
  · exact .pure _
  · exact .throw (by simp [full])

theorem stops_moveTo (p : Point) : Stops (moveTo p) := by
  apply Stops.get_bind fun _ _ => rfl
  intro t
  exact .bind (stops_setHistory _) fun _ => stops_emit _

theorem stops_advance (columns : Nat) : Stops (advance columns) := by
  apply Stops.get_bind fun _ _ => rfl
  intro t
  split
  · exact stops_setHistory _
  · exact .throw (by simp [full])

theorem ofParts_stops : OfParts fun m => Stops m where
  pure := .pure
  bind := .bind
  look hlook hf := .get_bind (fun _ s => hlook s _ s.history s.config.historyLimit) hf
  emit := stops_emit
  setStyle _ := .modify (fun _ => rfl) fun _ _ => rfl
  resize _ := .modify (fun _ => rfl) fun _ _ => rfl
  currentCell := stops_currentCell
  moveTo := stops_moveTo
  advance := stops_advance

theorem stops_stepTo (step : History → Option History) : Stops (stepTo step) := by
  apply Stops.get_bind fun _ _ => rfl
  intro t
  split
  · exact .pure false
  · apply Stops.bind (stops_setHistory _)
    intro _
    apply Stops.bind stops_currentCell
    intro cell
    exact .bind (stops_emit _) fun _ => .pure true

/-- That markup is refused is no want of room. -/
theorem stops_refuse (e : MarkupError) : Stops (throw (.markup e) : Action (List Section)) :=
  .throw (by simp [full])

/-- Every terminal operation stops where its sink does. -/
theorem stops_run [Text.Measure] (op : Operation) : Stops op.run :=
  ofParts_stops.run stops_refuse (fun _ => stops_stepTo _) fun _ => stops_stepTo _

end Terminal

end TerminalPanes
