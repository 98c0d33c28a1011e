-- The screen is given back once. A run that goes well gives it back itself, and
-- one that ends with an error leaves that to what comes after. Either way the
-- same is sent in all, and from then on giving the screen back does nothing.
import TerminalPanes.Showcase.Guard
import TerminalPanes.Proofs.TerminalEndings
import TerminalPanes.Proofs.WorkspaceReach

namespace TerminalPanes

/-- Sequences that are sent one by one are one beginning of a sink. -/
theorem Terminal.Ends.sendAll (sequences : List Sequence) (t : Terminal) :
    Ends (sequences.forM Terminal.send) t ()
      (t.became (sequences.map .control) t.style t.history) := by
  induction sequences generalizing t with
  | nil => exact pure () t
  | cons s rest ih => exact seq (send s t) (ih _)

namespace Showcase.Stage

variable {s u : Stage} {w v : Workspace}

/-! ## Taking over and giving back -/

/-- The workspace once sequences were sent that its terminal's record knows nothing of. -/
def sent (sequences : List Sequence) (w : Workspace) : Workspace :=
  { w with
    terminal := w.terminal.became (sequences.map .control) w.terminal.style w.terminal.history }

theorem send_eq (hroom : s.workspace.terminal.sink.room = none) (sequences : List Sequence) :
    send sequences s = .ok () { s with workspace := sent sequences s.workspace } := by
  obtain ⟨hok, -⟩ := (Terminal.Ends.sendAll sequences s.workspace.terminal).unlimited hroom
  unfold send work
  rw [Workspace.onTerminal_eq, hok]
  rfl

theorem enter_of_held (h : s.held = true) : enter s = .ok () s := by
  have hget : (get : Action Stage) s = .ok s s := rfl
  rw [enter, bind_of_ok hget, h]
  rfl

theorem enter_free (hroom : w.terminal.sink.room = none) :
    enter (free w) = .ok () ⟨true, sent entering w⟩ :=
  bind_of_ok (send_eq (s := free w) hroom entering)

theorem leave_of_not_held (h : s.held = false) : leave s = .ok () s := by
  have hget : (get : Action Stage) s = .ok s s := rfl
  rw [leave, bind_of_ok hget, h]
  rfl

theorem leave_held (hroom : w.terminal.sink.room = none) :
    leave ⟨true, w⟩ = .ok () (free (sent leaving w)) :=
  send_eq (s := free w) hroom leaving

/-! ## What remains to be done -/

theorem drop_of_not_held (h : s.held = false) : s.drop = s := by
  rw [drop, leave_of_not_held h]

theorem drop_held (hroom : w.terminal.sink.room = none) :
    drop ⟨true, w⟩ = free (sent leaving w) := by
  rw [drop, leave_held hroom]

/-- Sending does not take hold of the screen, whatever the sink refuses. -/
theorem upholds_send (held : Bool) (sequences : List Sequence) :
    Upholds (fun s => s.held = held) (fun _ => True) (send sequences) := by
  intro s hs
  unfold send work
  split
  · exact Upholds.at_ok rfl hs
  · exact Upholds.at_error rfl hs trivial

/-- However the giving back ends, the screen is not held any more. -/
theorem held_drop (s : Stage) : s.drop.held = false := by
  cases h : s.held with
  | false => rwa [drop_of_not_held h]
  | true =>
    have hleave : leave s = send leaving { s with held := false } := by
      have hget : (get : Action Stage) s = .ok s s := rfl
      rw [leave, bind_of_ok hget, h]
      rfl
    obtain ⟨hok, herror⟩ := upholds_send false leaving { s with held := false } rfl
    rw [← hleave] at hok herror
    unfold drop
    split
    · exact hok _ _ ‹_›
    · exact (herror _ _ ‹_›).1

/-- So it is given back once, even if that goes wrong. -/
theorem drop_drop (s : Stage) : s.drop.drop = s.drop := drop_of_not_held s.held_drop

/-! ## Runs -/

section

variable {body : Workspace.Action Unit} (hroom : w.terminal.sink.room = none)

include hroom

/-- A run that goes well has given the screen back. -/
theorem run_of_ok (hbody : body (sent entering w) = .ok () v)
    (hthen : v.terminal.sink.room = none) :
    (enter >>= fun _ => work body >>= fun _ => leave) (free w) =
      .ok () (free (sent leaving v)) := by
  have hwork : work body ⟨true, sent entering w⟩ = .ok () ⟨true, v⟩ := by
    unfold work
    rw [hbody]
  rw [bind_of_ok (enter_free hroom), bind_of_ok hwork, leave_held hthen]

/-- One that ends early still holds it. -/
theorem run_of_error {e : PaneError} (hbody : body (sent entering w) = .error e v) :
    (enter >>= fun _ => work body >>= fun _ => leave) (free w) = .error e ⟨true, v⟩ := by
  have hwork : work body ⟨true, sent entering w⟩ = .error e ⟨true, v⟩ := by
    unfold work
    rw [hbody]
  rw [bind_of_ok (enter_free hroom), bind_of_error hwork]

end

end Showcase.Stage

end TerminalPanes
