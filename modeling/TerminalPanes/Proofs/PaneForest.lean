-- The laws of the forest. A pane keeps its place among the others for good,
-- and where it lies follows from the panes above it as they are at present.
-- So a change to one pane moves those below it and no other.
import TerminalPanes.Pane.Forest
import Mathlib.Data.List.Forall2

namespace TerminalPanes.Forest

variable {f f' older : Forest} {p : Pane} {id q : Nat} {d : Detail} {size : Size}

/-! ## Looking up -/

theorem pane?_cons_length (p : Pane) (older : Forest) :
    pane? (p :: older) older.length = some p := if_pos rfl

theorem pane?_cons_of_lt (p : Pane) (h : id < older.length) :
    pane? (p :: older) id = older.pane? id := if_neg (Nat.ne_of_lt h)

theorem areaOf?_cons_of_lt (size : Size) (p : Pane) (h : id < older.length) :
    areaOf? size (p :: older) id = areaOf? size older id := if_neg (Nat.ne_of_lt h)

theorem rectOf?_cons_of_lt (size : Size) (p : Pane) (h : id < older.length) :
    rectOf? size (p :: older) id = rectOf? size older id := if_neg (Nat.ne_of_lt h)

theorem areaOf?_of_le (size : Size) (h : f.length ≤ id) : areaOf? size f id = some default := by
  induction f with
  | nil => rfl
  | cons p older ih =>
    rw [List.length_cons] at h
    rw [areaOf?, if_neg (by omega)]
    exact ih (by omega)

theorem lt_of_pane? (h : f.pane? id = some p) : id < f.length := by
  induction f with
  | nil => cases h
  | cons q older ih =>
    rw [List.length_cons]
    unfold pane? at h
    split at h
    · omega
    · have hlt := ih h
      omega

theorem exists_pane? (h : id < f.length) : ∃ p, f.pane? id = some p := by
  induction f with
  | nil => cases h
  | cons q older ih =>
    by_cases hid : id = older.length
    · exact ⟨q, if_pos hid⟩
    · rw [List.length_cons] at h
      obtain ⟨p, hp⟩ := ih (by omega)
      exact ⟨p, by rw [pane?_cons_of_lt q (by omega), hp]⟩

/-! ## Parts -/

/-- The pane takes a part of another one. -/
def IsPart (f : Forest) (parent : Nat) (d : Detail) (id : Nat) : Prop :=
  ∃ p, f.pane? id = some p ∧ p.placement = .within parent d

/-- A part of a pane, or of a pane below it. -/
inductive Below (f : Forest) (above : Nat) : Nat → Prop where
  | part {d : Detail} {id : Nat} : f.IsPart above d id → Below f above id
  | deeper {between id : Nat} {d : Detail} :
      Below f above between → f.IsPart between d id → Below f above id

/-- A part of an older pane lies in the padded area that its parent has at present. -/
theorem rectOf?_part (size : Size) (hlt : q < id) (h : f.IsPart q d id) :
    rectOf? size f id = (areaOf? size f q).bind d.rectIn? := by
  obtain ⟨p, hp, hplace⟩ := h
  induction f with
  | nil => cases hp
  | cons newest older ih =>
    by_cases hid : id = older.length
    · subst hid
      rw [pane?_cons_length, Option.some_inj] at hp
      subst hp
      rw [rectOf?, if_pos rfl, hplace, areaOf?_cons_of_lt size newest hlt]
      rfl
    · have hold := lt_of_pane? hp
      rw [List.length_cons] at hold
      rw [pane?_cons_of_lt newest (by omega)] at hp
      rw [rectOf?_cons_of_lt size newest (by omega), areaOf?_cons_of_lt size newest (by omega)]
      exact ih hp

/-! ## Growing -/

/-- Every pane keeps its number and what is seen of it. -/
structure Keeps {α : Type} (look : Pane → α) (f f' : Forest) : Prop where
  kept : ∀ {id p}, f.pane? id = some p → ∃ p', f'.pane? id = some p' ∧ look p' = look p

namespace Keeps

variable {α β : Type} {look : Pane → α}

theorem refl (look : Pane → α) (f : Forest) : Keeps look f f := ⟨fun h => ⟨_, h, rfl⟩⟩

theorem trans {f'' : Forest} (h : Keeps look f f') (h' : Keeps look f' f'') :
    Keeps look f f'' := by
  refine ⟨fun {id p} hp => ?_⟩
  obtain ⟨p', hp', hlook⟩ := h.kept hp
  obtain ⟨p'', hp'', hlook'⟩ := h'.kept hp'
  exact ⟨p'', hp'', hlook'.trans hlook⟩

theorem cons (look : Pane → α) (p : Pane) (older : Forest) : Keeps look older (p :: older) := by
  refine ⟨fun {id q} hq => ⟨q, ?_, rfl⟩⟩
  rw [pane?_cons_of_lt p (lt_of_pane? hq), hq]

theorem split (look : Pane → α) (f : Forest) (parent : Nat) (details : List Detail) :
    Keeps look f (f.split parent details).2 := by
  induction details generalizing f with
  | nil => exact refl look f
  | cons d rest ih =>
    have hone : Keeps look f (f.add (.within parent d)).2 := cons look _ f
    exact hone.trans (ih _)

theorem isPart (h : Keeps Pane.placement f f') (hp : f.IsPart q d id) : f'.IsPart q d id := by
  obtain ⟨p, hp, hplace⟩ := hp
  obtain ⟨p', hp', hplace'⟩ := h.kept hp
  exact ⟨p', hp', hplace'.trans hplace⟩

theorem below (h : Keeps Pane.placement f f') (hb : f.Below q id) : f'.Below q id := by
  induction hb with
  | part hp => exact .part (h.isPart hp)
  | deeper _ hp ih => exact .deeper ih (h.isPart hp)

end Keeps

/-! ## Changing a pane -/

variable {change : Pane → Pane}

@[simp] theorem length_modify (change : Pane → Pane) (f : Forest) (id : Nat) :
    (f.modify change id).length = f.length := by
  induction f with
  | nil => rfl
  | cons p older ih =>
    unfold modify
    split
    · rfl
    · rw [List.length_cons, ih, List.length_cons]

theorem pane?_modify_self (h : f.pane? id = some p) :
    (f.modify change id).pane? id = some (change p) := by
  induction f with
  | nil => cases h
  | cons newest older ih =>
    unfold modify
    split
    · rename_i hid
      subst hid
      rw [pane?_cons_length, Option.some_inj] at h
      subst h
      exact pane?_cons_length _ _
    · rename_i hid
      have hlt := lt_of_pane? h
      rw [List.length_cons] at hlt
      rw [pane?_cons_of_lt newest (by omega)] at h
      rw [pane?_cons_of_lt newest (by rw [length_modify]; omega)]
      exact ih h

/-- No other pane is changed. -/
theorem pane?_modify_of_ne {other : Nat} (h : other ≠ id) :
    (f.modify change id).pane? other = f.pane? other := by
  induction f with
  | nil => rfl
  | cons newest older ih =>
    unfold modify
    split
    · rename_i hid
      subst hid
      unfold pane?
      rw [if_neg h, if_neg h]
    · unfold pane?
      rw [length_modify, ih]

theorem modify_of_le (change : Pane → Pane) (h : f.length ≤ id) : f.modify change id = f := by
  induction f with
  | nil => rfl
  | cons newest older ih =>
    rw [List.length_cons] at h
    rw [modify, if_neg (by omega), ih (by omega)]

theorem pane_modify_self (h : id < f.length) :
    (f.modify change id).pane id = change (f.pane id) := by
  obtain ⟨p, hp⟩ := exists_pane? h
  rw [pane, pane, pane?_modify_self hp, hp]
  rfl

theorem pane_modify_of_ne {other : Nat} (h : other ≠ id) :
    (f.modify change id).pane other = f.pane other := by
  rw [pane, pane, pane?_modify_of_ne h]

/-- What a change leaves alone is the same of every pane. -/
theorem look_pane_modify {α : Type} {look : Pane → α} (h : ∀ p, look (change p) = look p)
    (f : Forest) (target id : Nat) :
    look ((f.modify change target).pane id) = look (f.pane id) := by
  by_cases hid : id = target
  · subst hid
    rcases Nat.lt_or_ge id f.length with hlt | hle
    · rw [pane_modify_self hlt, h]
    · rw [modify_of_le change hle]
  · rw [pane_modify_of_ne hid]

/-- A change that does nothing to its pane does nothing to the forest. -/
theorem modify_eq_self (h : change (f.pane id) = f.pane id) : f.modify change id = f := by
  induction f with
  | nil => rfl
  | cons newest older ih =>
    unfold modify
    split
    · rename_i hid
      have hnewest : pane (newest :: older) id = newest := by
        rw [pane, hid, pane?_cons_length]
        rfl
      rw [hnewest] at h
      rw [h]
    · rename_i hid
      have holder : pane (newest :: older) id = pane older id := by
        unfold pane
        rw [pane?, if_neg hid]
      rw [holder] at h
      rw [ih h]

/-- Panes that come later are not in the way of a change. -/
theorem modify_append (change : Pane → Pane) (newer : List Pane) (h : id < f.length) :
    modify change (newer ++ f) id = newer ++ modify change f id := by
  induction newer with
  | nil => rfl
  | cons p newer ih =>
    rw [List.cons_append, modify, if_neg (by rw [List.length_append]; omega), ih]
    rfl

theorem Keeps.modify {α : Type} {look : Pane → α} (hchange : ∀ p, look (change p) = look p)
    (f : Forest) (id : Nat) : Keeps look f (f.modify change id) := by
  refine ⟨fun {other p} hp => ?_⟩
  by_cases h : other = id
  · subst h
    exact ⟨change p, pane?_modify_self hp, hchange p⟩
  · exact ⟨p, by rw [pane?_modify_of_ne h, hp], rfl⟩

/-- A pane that keeps its place moves none but the panes below it, whatever else
of it is changed, and the padded area of none but these and itself. -/
theorem rectOf?_and_areaOf?_modify (hchange : ∀ p, (change p).placement = p.placement) (size : Size)
    {other : Nat} (h : ¬ f.Below id other) :
    rectOf? size (f.modify change id) other = rectOf? size f other ∧
      (other ≠ id → areaOf? size (f.modify change id) other = areaOf? size f other) := by
  induction f generalizing other with
  | nil => exact ⟨rfl, fun _ => rfl⟩
  | cons newest older ih =>
    by_cases hid : id = older.length
    · rw [modify, if_pos hid]
      by_cases hother : other = older.length
      · rw [rectOf?, rectOf?, if_pos hother, if_pos hother, hchange]
        exact ⟨rfl, fun hne => absurd (hother.trans hid.symm) hne⟩
      · rw [rectOf?, rectOf?, areaOf?, areaOf?, if_neg hother, if_neg hother, if_neg hother,
          if_neg hother]
        exact ⟨rfl, fun _ => rfl⟩
    · rw [modify, if_neg hid]
      have hbelow : ∀ {n : Nat}, Below older id n → Below (newest :: older) id n :=
        (Keeps.cons Pane.placement newest older).below
      by_cases hother : other = older.length
      · -- The newest pane asks for the area of its parent, which is neither the
        -- changed pane nor below it.
        have hplace : newest.placement.rect? size (areaOf? size (modify change older id)) =
            newest.placement.rect? size (areaOf? size older) := by
          cases hp : newest.placement with
          | between start stop => rfl
          | within parent d =>
            have harea :
                areaOf? size (modify change older id) parent = areaOf? size older parent := by
              by_cases hparent : parent < older.length
              · have hpart : IsPart (newest :: older) parent d other := by
                  subst hother
                  exact ⟨newest, pane?_cons_length _ _, hp⟩
                refine (ih fun hb => h (.deeper (hbelow hb) hpart)).2 ?_
                rintro rfl
                exact h (.part hpart)
              · rw [areaOf?_of_le size (by rw [length_modify]; omega),
                  areaOf?_of_le size (by omega)]
            rw [Placement.rect?, harea]
            rfl
        rw [rectOf?, rectOf?, areaOf?, areaOf?, length_modify, if_pos hother, if_pos hother,
          if_pos hother, if_pos hother, hplace]
        exact ⟨rfl, fun _ => rfl⟩
      · rw [rectOf?, rectOf?, areaOf?, areaOf?, length_modify, if_neg hother, if_neg hother,
          if_neg hother, if_neg hother]
        exact ih fun hb => h (hbelow hb)

theorem rectOf?_modify (hchange : ∀ p, (change p).placement = p.placement) (size : Size)
    {other : Nat} (h : ¬ f.Below id other) :
    rectOf? size (f.modify change id) other = rectOf? size f other :=
  (rectOf?_and_areaOf?_modify hchange size h).1

/-- A change that leaves the padding alone as well moves no pane at all. -/
theorem rectOf?_modify_of_same (hplacement : ∀ p, (change p).placement = p.placement)
    (hpadding : ∀ p, (change p).padding = p.padding) (f : Forest) (size : Size) (id : Nat) :
    rectOf? size (f.modify change id) = rectOf? size f ∧
      areaOf? size (f.modify change id) = areaOf? size f := by
  induction f with
  | nil => exact ⟨rfl, rfl⟩
  | cons p older ih =>
    obtain ⟨hrect, harea⟩ := ih
    unfold modify
    split <;> constructor <;> funext other <;> simp only [rectOf?, areaOf?, length_modify,
      hplacement, hpadding, hrect, harea]

/-! ## Dividing a pane -/

/-- Each detail gives a part of the pane that is divided, younger than any pane
before. -/
theorem isPart_split (f : Forest) (q : Nat) (details : List Detail) :
    List.Forall₂ (fun d id => f.length ≤ id ∧ (f.split q details).2.IsPart q d id) details
      (f.split q details).1 := by
  induction details generalizing f with
  | nil => exact .nil
  | cons d rest ih =>
    have hnew : (f.add (.within q d)).2.IsPart q d f.length := ⟨_, pane?_cons_length _ f, rfl⟩
    refine .cons ⟨Nat.le_refl _, (Keeps.split _ _ q rest).isPart hnew⟩ ((ih _).imp ?_)
    rintro d' id' ⟨hle, hpart⟩
    exact ⟨Nat.le_of_succ_le hle, hpart⟩

/-- The numbers of the parts are the next ones, and the parts stand before all
older panes. -/
theorem split_eq (f : Forest) (parent : Nat) (details : List Detail) :
    f.split parent details = (List.range' f.length details.length,
      (details.map fun d => Pane.ofPlacement (.within parent d)).reverse ++ f) := by
  induction details generalizing f with
  | nil => rfl
  | cons d rest ih =>
    simp [split, add, ih, List.range'_succ]

theorem areaOf?_split (size : Size) (h : id < f.length) (parent : Nat) (details : List Detail) :
    areaOf? size (f.split parent details).2 id = areaOf? size f id := by
  induction details generalizing f with
  | nil => rfl
  | cons d rest ih =>
    have hgrown : id < (f.add (.within parent d)).2.length := Nat.lt_succ_of_lt h
    exact (ih hgrown).trans (areaOf?_cons_of_lt size _ h)

end TerminalPanes.Forest
