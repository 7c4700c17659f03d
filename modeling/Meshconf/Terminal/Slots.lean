import Meshconf.Terminal.Display
import Meshconf.Transition.Run

/-! # The slots of the display

The images of a slot alternate between two numbers, whether they arrive or not. So the image
on display is the one that is overwritten after an odd number of failures, and after an even
number it is not. All numbers are among those that are deleted in the end. The labels that are
remembered are those last written; what of them can be read where they meet is not followed.
-/

namespace Meshconf.Terminal

open History Mesh Transition Video

/-- The slot that an image number belongs to. -/
def slotOf (id : ℕ) : ℕ := (id - 1) / 2

@[simp] theorem slotOf_imageId (slot : ℕ) (b : Bool) : slotOf (imageId slot b) = slot := by
  cases b <;> simp only [slotOf, imageId, if_true, Bool.false_eq_true, if_false] <;> omega

@[simp] theorem imageId_inj {slot : ℕ} {b b' : Bool} : imageId slot b = imageId slot b' ↔ b = b' := by
  cases b <;> cases b' <;> simp [imageId]

theorem imageId_pos (slot : ℕ) (b : Bool) : 0 < imageId slot b := by
  cases b <;> exact Nat.succ_pos _

/-! ## What is on display -/

namespace Write

/-- A write that concerns no image. -/
def isText : Write → Bool
  | .label .. | .dot .. | .clearLine .. | .message .. | .copyable .. | .errorBanner .. => true
  | _ => false

def isLabel : Write → Bool
  | .label .. => true
  | _ => false

/-- A part of the status. -/
def isStatus : Write → Bool
  | .clearLine .. | .message .. | .copyable .. => true
  | _ => false

/-- A write that neither places an image nor reports a failure. -/
def isQuiet : Write → Bool
  | .displayImageAt .. | .warn .. => false
  | _ => true

theorem isQuiet_of_isText {w : Write} (h : w.isText) : w.isQuiet := by
  cases w <;> first | rfl | cases h

end Write

/-- What a write says of the image last placed in a slot. -/
def places (slot : ℕ) : Write → Option (Option ℕ)
  | .displayImageAt id .. => if slotOf id = slot then some (some id) else none
  | .deleteImage id => if slotOf id = slot then some none else none
  | .clearScreen => some none
  | _ => none

/-- The image last placed in a slot, unless it was cleared or images of the slot deleted since. -/
def front (slot : ℕ) (written : List Write) : Option ℕ := held (places slot) written

def countFailure (slot n : ℕ) : Write → ℕ
  | .displayImageAt id .. => if slotOf id = slot then 0 else n
  | .warn s => if s = slot then n + 1 else n
  | _ => n

/--
How often the image of a slot was not transmitted, or was transmitted and not placed, since an
image was last placed in the slot.
-/
def failures (slot : ℕ) (written : List Write) : ℕ := written.foldl (countFailure slot) 0

section History

variable {slot id : ℕ} {l ws : List Write} {w : Write}

@[simp] theorem front_snoc : front slot (l ++ [w]) = (places slot w).getD (front slot l) :=
  held_snoc

@[simp] theorem failures_snoc : failures slot (l ++ [w]) = countFailure slot (failures slot l) w := by
  simp [failures]

theorem slotOf_front (h : front slot l = some id) : slotOf id = slot := by
  induction l using List.reverseRecOn with
  | nil => cases h
  | append_singleton l w ih =>
    rw [front_snoc] at h
    cases w with
    | displayImageAt id' =>
      simp only [places] at h
      split_ifs at h with hslot
      · cases h
        exact hslot
      · exact ih h
    | deleteImage id' =>
      simp only [places] at h
      split_ifs at h
      · cases h
      · exact ih h
    | clearScreen => cases h
    | _ => exact ih h

theorem failures_eq_zero (h : Write.warn slot ∉ l) : failures slot l = 0 := by
  induction l using List.reverseRecOn with
  | nil => rfl
  | append_singleton l w ih =>
    simp only [List.mem_append, List.mem_singleton, not_or] at h
    rw [failures_snoc, ih h.1]
    cases w with
    | warn s =>
      have hne : s ≠ slot := by
        rintro rfl
        exact h.2 rfl
      exact if_neg hne
    | displayImageAt id' => simp [countFailure]
    | _ => rfl

/-- Quiet writes bring no image on display. -/
theorem front_append_quiet (hws : ∀ w ∈ ws, w.isQuiet) (h : front slot (l ++ ws) = some id) :
    front slot l = some id := by
  induction ws using List.reverseRecOn with
  | nil => rwa [List.append_nil] at h
  | append_singleton ws w ih =>
    have hw := hws w (by simp)
    have hrest : ∀ x ∈ ws, x.isQuiet := fun x hx => hws x (List.mem_append_left _ hx)
    rw [← List.append_assoc, front_snoc] at h
    cases w with
    | displayImageAt => cases hw
    | deleteImage id' =>
      simp only [places] at h
      split_ifs at h
      · cases h
      · exact ih hrest h
    | clearScreen => cases h
    | _ => exact ih hrest h

theorem failures_append_quiet (hws : ∀ w ∈ ws, w.isQuiet) :
    failures slot (l ++ ws) = failures slot l := by
  induction ws using List.reverseRecOn with
  | nil => rw [List.append_nil]
  | append_singleton ws w ih =>
    have hw := hws w (by simp)
    rw [← List.append_assoc, failures_snoc, ih fun x hx => hws x (List.mem_append_left _ hx)]
    cases w with
    | displayImageAt => cases hw
    | warn => cases hw
    | _ => rfl

theorem quiet_deleteImages : ∀ w ∈ DisplayLoop.deleteImages, w.isQuiet := by
  intro w hw
  obtain ⟨i, -, rfl⟩ := List.mem_map.mp hw
  rfl

end History

/-! ## The terminal -/

namespace Screen

variable {s : Screen} {l ws : List Write} {w : Write} {id slot : ℕ}

@[simp] theorem after_nil : after [] = {} := rfl

theorem after_append : after (l ++ ws) = ws.foldl receive (after l) := List.foldl_append

@[simp] theorem after_snoc : after (l ++ [w]) = (after l).receive w := by
  rw [after_append, List.foldl_cons, List.foldl_nil]

theorem receive_of_isText (h : w.isText) : s.receive w = s := by
  cases w <;> first | rfl | cases h

@[simp] theorem mem_delete_images {e : ℕ × RgbFrame} :
    e ∈ (s.delete id).images ↔ e ∈ s.images ∧ e.1 ≠ id := by simp [delete]

@[simp] theorem mem_delete_placements {p : Placement} :
    p ∈ (s.delete id).placements ↔ p ∈ s.placements ∧ p.id ≠ id := by simp [delete]

/-- Images and placements have each number once, and it is the number of a slot. -/
structure Tidy (s : Screen) : Prop where
  nodup_images : (s.images.map Prod.fst).Nodup
  nodup_placements : (s.placements.map Placement.id).Nodup
  stored : ∀ p ∈ s.placements, p.id ∈ s.images.map Prod.fst
  ids : ∀ e ∈ s.images, 0 < e.1 ∧ slotOf e.1 < maxTiles

theorem tidy_empty : Tidy {} where
  nodup_images := List.nodup_nil
  nodup_placements := List.nodup_nil
  stored p hp := by cases hp
  ids e he := by cases he

theorem Tidy.delete (h : s.Tidy) (id : ℕ) : (s.delete id).Tidy where
  nodup_images := h.nodup_images.sublist (List.filter_sublist.map _)
  nodup_placements := h.nodup_placements.sublist (List.filter_sublist.map _)
  stored p hp := by
    obtain ⟨hp, hne⟩ := mem_delete_placements.mp hp
    obtain ⟨e, he, heq⟩ := List.mem_map.mp (h.stored p hp)
    exact List.mem_map.mpr ⟨e, mem_delete_images.mpr ⟨he, by rwa [heq]⟩, heq⟩
  ids e he := h.ids e (mem_delete_images.mp he).1

theorem Tidy.clear (h : s.Tidy) : (s.receive .clearScreen).Tidy where
  nodup_images := h.nodup_images
  nodup_placements := List.nodup_nil
  stored p hp := by cases hp
  ids := h.ids

theorem Tidy.transmit (h : s.Tidy) {frame : RgbFrame} (hpos : 0 < id) (hid : slotOf id < maxTiles) :
    (s.receive (.transmitImage id frame)).Tidy where
  nodup_images := by
    have hold := (h.delete id).nodup_images
    simp only [receive, List.map_append, List.map_cons, List.map_nil]
    rw [List.nodup_append_comm, List.singleton_append, List.nodup_cons]
    refine ⟨fun hmem => ?_, hold⟩
    obtain ⟨e, he, heq⟩ := List.mem_map.mp hmem
    exact (mem_delete_images.mp he).2 heq
  nodup_placements := (h.delete id).nodup_placements
  stored p hp := by
    have hmem := (h.delete id).stored p hp
    simp only [receive, List.map_append]
    exact List.mem_append_left _ hmem
  ids e he := by
    rcases List.mem_append.mp he with he | he
    · exact (h.delete id).ids e he
    · obtain rfl := List.mem_singleton.mp he
      exact ⟨hpos, hid⟩

/-- An image is placed right after its transmission. -/
theorem receive_display {frame : RgbFrame} {col row cols rows : ℕ} :
    (s.receive (.transmitImage id frame)).receive (.displayImageAt id col row cols rows) =
      { s.receive (.transmitImage id frame) with
        placements := (s.delete id).placements ++ [⟨id, col, row, cols, rows⟩] } := by
  simp [receive]

theorem Tidy.display (h : s.Tidy) {frame : RgbFrame} {col row cols rows : ℕ} (hpos : 0 < id)
    (hid : slotOf id < maxTiles) :
    ((s.receive (.transmitImage id frame)).receive
      (.displayImageAt id col row cols rows)).Tidy := by
  have hnew : (s.receive (.transmitImage id frame)).Tidy := h.transmit hpos hid
  rw [receive_display]
  refine ⟨hnew.nodup_images, ?_, ?_, hnew.ids⟩
  · rw [List.map_append, List.nodup_append_comm]
    refine List.nodup_cons.mpr ⟨fun hmem => ?_, hnew.nodup_placements⟩
    obtain ⟨p, hp, heq⟩ := List.mem_map.mp hmem
    exact (mem_delete_placements.mp hp).2 heq
  · intro p hp
    rcases List.mem_append.mp hp with hp | hp
    · exact hnew.stored p hp
    · obtain rfl := List.mem_singleton.mp hp
      simp [receive]

theorem images_display {col row cols rows : ℕ} :
    (s.receive (.displayImageAt id col row cols rows)).images = s.images := by
  simp only [receive]
  split_ifs <;> rfl

/-- Two images for each slot at the most. -/
theorem Tidy.length_images (h : s.Tidy) : s.images.length ≤ 2 * maxTiles := by
  have hsub : s.images.map Prod.fst ⊆ List.range' 1 (2 * maxTiles) := by
    intro id hid
    obtain ⟨e, he, rfl⟩ := List.mem_map.mp hid
    obtain ⟨hpos, hslot⟩ := h.ids e he
    unfold slotOf at hslot
    exact List.mem_range'_1.mpr (by omega)
  have hle := (List.subperm_of_subset h.nodup_images hsub).length_le
  rwa [List.length_map, List.length_range'] at hle

end Screen

/-! ## The law of a history -/

/--
Only images with the number of a slot are transmitted, and the image on display is overwritten
after an odd number of failures. An image is placed when it has just been transmitted.
-/
def Alternates (before : List Write) : Write → Prop
  | .transmitImage id _ => 0 < id ∧ slotOf id < maxTiles ∧
      ∀ f, front (slotOf id) before = some f → (f = id ↔ Odd (failures (slotOf id) before))
  | .displayImageAt id .. => ∃ earlier frame, before = earlier ++ [.transmitImage id frame]
  | _ => True

section Law

variable {l pre : List Write} {slot f : ℕ}

/-- Whatever has been written up to some time, the screen is tidy. -/
theorem tidy_of_each (h : Each Alternates l) (hpre : pre <+: l) : (Screen.after pre).Tidy := by
  induction l using List.reverseRecOn generalizing pre with
  | nil =>
    rw [List.prefix_nil.mp hpre]
    exact Screen.tidy_empty
  | append_singleton l w ih =>
    obtain ⟨hl, hw⟩ := each_snoc.mp h
    rcases List.prefix_concat_iff.mp hpre with rfl | hpre
    · have hold : (Screen.after l).Tidy := ih hl (List.prefix_refl l)
      rw [Screen.after_snoc]
      cases w with
      | deleteImage id => exact hold.delete id
      | transmitImage id frame => exact hold.transmit hw.1 hw.2.1
      | displayImageAt id =>
        obtain ⟨earlier, frame, rfl⟩ := hw
        obtain ⟨-, hpos, hid, -⟩ := each_snoc.mp hl
        rw [Screen.after_snoc]
        exact (ih hl (List.prefix_append _ _)).display hpos hid
      | clearScreen => exact hold.clear
      | _ => exact hold
    · exact ih hl hpre

/-- An image that is placed stays on display as long as its slot does not fail. -/
theorem front_on_display (h : Each Alternates l) (hwarn : Write.warn slot ∉ l)
    (hf : front slot l = some f) : f ∈ (Screen.after l).placements.map Placement.id := by
  induction l using List.reverseRecOn with
  | nil => cases hf
  | append_singleton l w ih =>
    obtain ⟨hl, hw⟩ := each_snoc.mp h
    have hwarnl : Write.warn slot ∉ l := fun hmem => hwarn (List.mem_append_left _ hmem)
    have hslot := slotOf_front hf
    rw [front_snoc] at hf
    rw [Screen.after_snoc]
    have hdelete : ∀ id, id ≠ f → front slot l = some f →
        f ∈ ((Screen.after l).delete id).placements.map Placement.id := by
      intro id hne hf
      obtain ⟨p, hp, rfl⟩ := List.mem_map.mp (ih hl hwarnl hf)
      exact List.mem_map_of_mem (Screen.mem_delete_placements.mpr ⟨hp, hne.symm⟩)
    cases w with
    | deleteImage id =>
      simp only [places] at hf
      split_ifs at hf with hid
      · cases hf
      · exact hdelete id (by rintro rfl; exact hid hslot) hf
    | transmitImage id frame =>
      refine hdelete id ?_ hf
      rintro rfl
      -- Without failures their number is even.
      have hodd : Odd (failures (slotOf id) l) := (hw.2.2 id (by rw [hslot]; exact hf)).mp rfl
      rw [hslot, failures_eq_zero hwarnl] at hodd
      exact Nat.not_odd_zero hodd
    | displayImageAt id col row cols rows =>
      obtain ⟨earlier, frame, rfl⟩ := hw
      rw [Screen.after_snoc, Screen.receive_display]
      simp only [places] at hf
      split_ifs at hf with hid
      · cases hf
        simp
      · have hmem := ih hl hwarnl hf
        rw [Screen.after_snoc] at hmem
        rw [List.map_append]
        exact List.mem_append_left _ hmem
    | clearScreen => cases hf
    | _ => exact ih hl hwarnl hf

end Law

/-! ## Labels -/

section PutAt

variable {α : Type*} [Inhabited α] {xs : List α} {i j : ℕ} {x y : α}

@[simp] theorem getElem?_putAt_self : (putAt xs i x)[i]? = some x := by
  unfold putAt
  rw [List.getElem?_set_self]
  rw [List.length_append, List.length_replicate]
  omega

theorem getElem?_putAt_of_ne (xs : List α) (x : α) (hne : j ≠ i) :
    (putAt xs i x)[j]? = xs[j]? ∨ xs[j]? = none ∧ (putAt xs i x)[j]? = some default := by
  unfold putAt
  rw [List.getElem?_set_ne hne.symm]
  rcases Nat.lt_or_ge j xs.length with hj | hj
  · exact Or.inl (List.getElem?_append_left hj)
  · rw [List.getElem?_append_right hj, List.getElem?_replicate, List.getElem?_eq_none hj]
    split_ifs
    · exact Or.inr ⟨rfl, rfl⟩
    · exact Or.inl rfl

end PutAt

/-- What a write says of the label last written for a slot. -/
def labels (slot : ℕ) : Write → Option (Option (String × ConnectionKind))
  | .label s _ _ name kind _ => if s = slot then some (some (name, kind)) else none
  | .clearScreen => some none
  | _ => none

/-- The label last written for a slot since the screen was cleared, wherever it was written. -/
def lastLabel (slot : ℕ) (written : List Write) : Option (String × ConnectionKind) :=
  held (labels slot) written

@[simp] theorem lastLabel_snoc {slot : ℕ} {l : List Write} {w : Write} :
    lastLabel slot (l ++ [w]) = (labels slot w).getD (lastLabel slot l) := held_snoc

/-- The label last written is the one that is remembered, or there is none. -/
def LabelOk : Option DrawnLabel → Option (String × ConnectionKind) → Prop
  | none, last => last = none
  | some label, none => label = default
  | some label, some (name, kind) =>
    name = DisplayLoop.displayName label.name ∧ connKindTag kind = label.connKindTag

/-! ## The slots -/

/-- The toggles and the labels of the slots, with what was written. -/
structure Slots where
  tileCount : ℕ := 0
  backToggle : ℕ → Bool := fun _ => false
  drawnLabels : List DrawnLabel := []
  written : List Write := []

namespace Slots

open DisplayLoop (deleteImages displayName)

/-- A picture's cells: column, row, and how many of each. -/
abbrev Rect := ℕ × ℕ × ℕ × ℕ

inductive Action
  | text (w : Write)
  | label (slot col row : ℕ) (name : String) (kind : ConnectionKind) (pad : ℕ)
  | clear (tileCount : ℕ)
  | delete
  | miss (slot : ℕ)
  /-- The image is placed in the cells, or that fails. -/
  | transmit (slot : ℕ) (frame : RgbFrame) (cells : Option Rect)

variable (b : Slots)

def write (ws : List Write) : Slots := { b with written := b.written ++ ws }

/-- Clear the screen for another number of tiles. -/
def clearAll (n : ℕ) : Slots :=
  { b with tileCount := n, drawnLabels := [], written := b.written ++ .clearScreen :: deleteImages }

def flip (slot : ℕ) : Slots :=
  { b with backToggle := Function.update b.backToggle slot (!b.backToggle slot) }

/-- A slot that a gallery with this number of tiles uses. -/
def Used (slot : ℕ) : Prop := slot < min b.tileCount maxTiles

instance (slot : ℕ) : Decidable (b.Used slot) := inferInstanceAs (Decidable (slot < _))

def place (slot id : ℕ) : Option Rect → Write
  | some (col, row, cols, rows) => .displayImageAt id col row cols rows
  | none => .warn slot

def step (b : Slots) : Action → Option Slots
  | .text w => if w.isText ∧ !w.isLabel then some (b.write [w]) else none
  | .label slot col row name kind pad =>
    some ({ b with drawnLabels := putAt b.drawnLabels slot ⟨name, connKindTag kind⟩ }.write
      [.label slot col row (displayName name) kind pad])
  | .clear n => some (b.clearAll n)
  | .delete => some (b.write deleteImages)
  | .miss slot => if b.Used slot then some ((b.flip slot).write [.warn slot]) else none
  | .transmit slot frame cells =>
    let id := imageId slot (b.backToggle slot)
    if b.Used slot then
      some ((b.flip slot).write [.transmitImage id frame, place slot id cells])
    else none

/-- The invariant: where the image on display stands, and which images are stored. -/
structure Sound (b : Slots) : Prop where
  each : Each Alternates b.written
  shown : ∀ slot f, front slot b.written = some f →
    f = imageId slot (b.backToggle slot ^^ decide (Even (failures slot b.written)))
  stored : ∀ e ∈ (Screen.after b.written).images, b.Used (slotOf e.1)

variable {b b' : Slots} {slot : ℕ}

theorem sound_init : Sound {} where
  each := each_nil
  shown slot f h := by cases h
  stored e he := by cases he

/-- Quiet writes keep the invariant if they leave no image without a slot. -/
theorem Sound.quiet (h : b.Sound) {n : ℕ} {labels : List DrawnLabel} {ws : List Write}
    (hws : ∀ w ∈ ws, w.isQuiet)
    (heach : Each Alternates (b.written ++ ws))
    (hstored : ∀ e ∈ (Screen.after (b.written ++ ws)).images, slotOf e.1 < min n maxTiles) :
    Sound { b with tileCount := n, drawnLabels := labels, written := b.written ++ ws } where
  each := heach
  shown slot f hf := by
    show f = imageId slot (b.backToggle slot ^^ decide (Even (failures slot (b.written ++ ws))))
    rw [failures_append_quiet hws]
    exact h.shown slot f (front_append_quiet hws hf)
  stored := hstored

theorem Sound.tidy (h : b.Sound) : (Screen.after b.written).Tidy :=
  tidy_of_each h.each (List.prefix_refl _)

theorem alternates_deleteImages (before : List Write) (w : Write) (hw : w ∈ deleteImages) :
    Alternates before w := by
  obtain ⟨i, -, rfl⟩ := List.mem_map.mp hw
  trivial

theorem foldl_deleteImage (ids : List ℕ) (s : Screen) :
    (ids.map Write.deleteImage).foldl Screen.receive s =
      { images := s.images.filter (·.1 ∉ ids), placements := s.placements.filter (·.id ∉ ids) } := by
  induction ids generalizing s with
  | nil => simp
  | cons id ids ih =>
    rw [List.map_cons, List.foldl_cons, ih]
    simp only [Screen.receive, Screen.delete, List.filter_filter, Screen.mk.injEq]
    constructor <;> refine List.filter_congr fun x _ => ?_ <;> simp [Bool.and_comm]

/-- All numbers of slots are deleted. -/
theorem foldl_deleteImages {s : Screen} (h : s.Tidy) :
    deleteImages.foldl Screen.receive s = {} := by
  have hmap : deleteImages = (List.range' 1 (maxTiles * 2 + 2)).map Write.deleteImage := rfl
  have hid : ∀ e ∈ s.images, e.1 ∈ List.range' 1 (maxTiles * 2 + 2) := by
    intro e he
    obtain ⟨hpos, hslot⟩ := h.ids e he
    unfold slotOf at hslot
    exact List.mem_range'_1.mpr (by omega)
  rw [hmap, foldl_deleteImage, Screen.mk.injEq]
  constructor
  · exact List.filter_eq_nil_iff.mpr fun e he => by
      rw [decide_eq_true_iff, not_not]
      exact hid e he
  · refine List.filter_eq_nil_iff.mpr fun p hp => ?_
    obtain ⟨e, he, heq⟩ := List.mem_map.mp (h.stored p hp)
    rw [decide_eq_true_iff, not_not, ← heq]
    exact hid e he

theorem Sound.after_delete (h : b.Sound) : Screen.after (b.written ++ deleteImages) = {} := by
  rw [Screen.after_append, foldl_deleteImages h.tidy]

theorem Sound.after_clear (h : b.Sound) :
    Screen.after (b.written ++ .clearScreen :: deleteImages) = {} := by
  rw [Screen.after_append, List.foldl_cons]
  exact foldl_deleteImages h.tidy.clear

theorem Sound.text (h : b.Sound) {w : Write} {labels : List DrawnLabel} (hw : w.isText) :
    ({ b with drawnLabels := labels }.write [w]).Sound := by
  refine h.quiet ?_ ?_ ?_
  · intro x hx
    obtain rfl := List.mem_singleton.mp hx
    exact Write.isQuiet_of_isText hw
  · refine each_snoc.mpr ⟨h.each, ?_⟩
    cases w with
    | transmitImage => cases hw
    | displayImageAt => cases hw
    | _ => trivial
  · rw [Screen.after_snoc, Screen.receive_of_isText hw]
    exact h.stored

theorem Sound.delete (h : b.Sound) : (b.write deleteImages).Sound := by
  refine h.quiet quiet_deleteImages (h.each.append alternates_deleteImages) ?_
  intro e he
  rw [h.after_delete] at he
  cases he

theorem Sound.clear (h : b.Sound) (n : ℕ) : (b.clearAll n).Sound := by
  refine h.quiet ?_ ?_ ?_
  · exact List.forall_mem_cons.mpr ⟨rfl, quiet_deleteImages⟩
  · exact h.each.append fun before => List.forall_mem_cons.mpr
      ⟨trivial, alternates_deleteImages before⟩
  · intro e he
    rw [h.after_clear] at he
    cases he

/-- The toggle of a slot follows its failures. -/
theorem Sound.miss (h : b.Sound) (slot : ℕ) : ((b.flip slot).write [.warn slot]).Sound where
  each := each_snoc.mpr ⟨h.each, trivial⟩
  shown s f hf := by
    have hold : front s b.written = some f := by
      change front s (b.written ++ [.warn slot]) = some f at hf
      rwa [front_snoc] at hf
    change f = imageId s (Function.update b.backToggle slot (!b.backToggle slot) s ^^
      decide (Even (failures s (b.written ++ [.warn slot]))))
    rw [failures_snoc, h.shown s f hold, countFailure]
    by_cases hs : slot = s
    · subst hs
      rw [Function.update_self, if_pos rfl, decide_eq_decide.mpr Nat.even_add_one, decide_not,
        Bool.xor_not, Bool.not_xor, Bool.not_not]
    · rw [if_neg hs, Function.update_of_ne (Ne.symm hs)]
  stored e he := by
    change e ∈ (Screen.after (b.written ++ [.warn slot])).images at he
    rw [Screen.after_snoc] at he
    exact h.stored e he

/-- A transmission overwrites the image on display if the failures are odd. -/
theorem Sound.alternates_transmit (h : b.Sound) (hused : b.Used slot) (frame : RgbFrame) :
    Alternates b.written (.transmitImage (imageId slot (b.backToggle slot)) frame) := by
  refine ⟨imageId_pos _ _, ?_, ?_⟩
  · rw [slotOf_imageId]
    exact lt_of_lt_of_le hused (Nat.min_le_right _ _)
  · rw [slotOf_imageId]
    intro f hf
    rw [h.shown slot f hf, imageId_inj, ← Nat.not_even_iff_odd]
    by_cases heven : Even (failures slot b.written) <;> simp [heven]

/-- The image that has just been transmitted is placed. -/
theorem Sound.display (h : b.Sound) {id col row cols rows : ℕ} {earlier : List Write}
    {frame : RgbFrame} (hid : id = imageId slot (b.backToggle slot))
    (hlast : b.written = earlier ++ [.transmitImage id frame]) :
    ((b.flip slot).write [.displayImageAt id col row cols rows]).Sound where
  each := each_snoc.mpr ⟨h.each, earlier, frame, hlast⟩
  shown s f hf := by
    have hslot : slotOf id = slot := by rw [hid, slotOf_imageId]
    change front s (b.written ++ [.displayImageAt id col row cols rows]) = some f at hf
    rw [front_snoc, places, hslot] at hf
    change f = imageId s (Function.update b.backToggle slot (!b.backToggle slot) s ^^
      decide (Even (failures s (b.written ++ [.displayImageAt id col row cols rows]))))
    rw [failures_snoc, countFailure, hslot]
    by_cases hs : slot = s
    · subst hs
      rw [if_pos rfl] at hf
      cases hf
      simpa using hid
    · rw [if_neg hs] at hf
      rw [if_neg hs, Function.update_of_ne (Ne.symm hs)]
      exact h.shown s f hf
  stored e he := by
    change e ∈ (Screen.after (b.written ++ [.displayImageAt id col row cols rows])).images at he
    rw [Screen.after_snoc, Screen.images_display] at he
    exact h.stored e he

theorem Sound.sent (h : b.Sound) (hused : b.Used slot) (frame : RgbFrame) :
    (b.write [.transmitImage (imageId slot (b.backToggle slot)) frame]).Sound := by
  refine h.quiet ?_ (each_snoc.mpr ⟨h.each, h.alternates_transmit hused frame⟩) ?_
  · intro w hw
    obtain rfl := List.mem_singleton.mp hw
    rfl
  · intro e he
    rw [Screen.after_snoc] at he
    rcases List.mem_append.mp he with he | he
    · exact h.stored e (Screen.mem_delete_images.mp he).1
    · obtain rfl := List.mem_singleton.mp he
      rw [slotOf_imageId]
      exact hused

/-- After a transmission the image is placed, or the slot has failed. -/
theorem Sound.transmit (h : b.Sound) (hused : b.Used slot) (frame : RgbFrame)
    (cells : Option Rect) :
    ((b.flip slot).write [.transmitImage (imageId slot (b.backToggle slot)) frame,
      place slot (imageId slot (b.backToggle slot)) cells]).Sound := by
  have hsent := h.sent hused frame
  cases cells with
  | none => simpa [write, flip, place] using hsent.miss slot
  | some r =>
    obtain ⟨col, row, cols, rows⟩ := r
    simpa [write, flip, place] using hsent.display rfl rfl

theorem Sound.step (h : b.Sound) {a : Action} (hs : b.step a = some b') : b'.Sound := by
  cases a with
  | text w =>
    simp only [Slots.step] at hs
    split_ifs at hs with hw
    obtain rfl := Option.some.inj hs
    exact h.text hw.1
  | label slot col row name kind pad =>
    obtain rfl := Option.some.inj hs
    exact h.text rfl
  | clear n =>
    obtain rfl := Option.some.inj hs
    exact h.clear n
  | delete =>
    obtain rfl := Option.some.inj hs
    exact h.delete
  | miss slot =>
    simp only [Slots.step] at hs
    split_ifs at hs
    obtain rfl := Option.some.inj hs
    exact h.miss slot
  | transmit slot frame cells =>
    simp only [Slots.step] at hs
    split_ifs at hs with hused
    obtain rfl := Option.some.inj hs
    exact h.transmit hused frame cells

theorem Sound.of_reachable (hb : Reachable Slots.step b b') (h : b.Sound) : b'.Sound :=
  hb.invariant (fun _ _ _ h hs => h.step hs) h

/-! ## The labels of the slots -/

/-- Every slot has the label that is remembered of it. -/
def Labelled (b : Slots) : Prop := ∀ slot, LabelOk b.drawnLabels[slot]? (lastLabel slot b.written)

theorem labelled_init : Labelled {} := fun _ => rfl

theorem lastLabel_append {l ws : List Write} (h : ∀ w ∈ ws, labels slot w = none) :
    lastLabel slot (l ++ ws) = lastLabel slot l := by
  unfold lastLabel held
  rw [List.filterMap_append, List.filterMap_eq_nil_iff.mpr h, List.append_nil]

theorem labels_deleteImages {w : Write} (hw : w ∈ deleteImages) : labels slot w = none := by
  obtain ⟨i, -, rfl⟩ := List.mem_map.mp hw
  rfl

/-- Writes that are no labels leave the labels alone. -/
theorem Labelled.append (h : b.Labelled) {ws : List Write}
    (hws : ∀ slot, ∀ w ∈ ws, labels slot w = none) : (b.write ws).Labelled := by
  intro slot
  change LabelOk b.drawnLabels[slot]? (lastLabel slot (b.written ++ ws))
  rw [lastLabel_append (hws slot)]
  exact h slot

theorem Labelled.clear (b : Slots) (n : ℕ) : (b.clearAll n).Labelled := by
  intro slot
  change LabelOk none (lastLabel slot (b.written ++ ([.clearScreen] ++ deleteImages)))
  rw [← List.append_assoc, lastLabel_append fun w => labels_deleteImages, lastLabel_snoc]
  rfl

theorem Labelled.label (h : b.Labelled) {slot col row pad : ℕ} {name : String}
    {kind : ConnectionKind} :
    ({ b with drawnLabels := putAt b.drawnLabels slot ⟨name, connKindTag kind⟩ }.write
      [.label slot col row (displayName name) kind pad]).Labelled := by
  intro s
  change LabelOk (putAt b.drawnLabels slot ⟨name, connKindTag kind⟩)[s]?
    (lastLabel s (b.written ++ [.label slot col row (displayName name) kind pad]))
  rw [lastLabel_snoc, labels]
  by_cases hs : slot = s
  · subst hs
    rw [if_pos rfl, getElem?_putAt_self]
    exact ⟨rfl, rfl⟩
  · have hold := h s
    rw [if_neg hs]
    rcases getElem?_putAt_of_ne b.drawnLabels ⟨name, connKindTag kind⟩ (Ne.symm hs)
      with heq | ⟨hnone, heq⟩
    · rw [heq]
      exact hold
    · -- The list has grown over a slot without a label.
      rw [hnone] at hold
      rw [heq, Option.getD_none, show lastLabel s b.written = none from hold]
      rfl

theorem Labelled.step (h : b.Labelled) {a : Action} (hs : b.step a = some b') : b'.Labelled := by
  cases a with
  | text w =>
    simp only [Slots.step] at hs
    split_ifs at hs with hw
    obtain rfl := Option.some.inj hs
    refine h.append fun slot x hx => ?_
    obtain rfl := List.mem_singleton.mp hx
    cases x with
    | label => simp [Write.isLabel] at hw
    | clearScreen => simp [Write.isText] at hw
    | _ => rfl
  | label slot col row name kind pad =>
    obtain rfl := Option.some.inj hs
    exact h.label
  | clear n =>
    obtain rfl := Option.some.inj hs
    exact .clear b n
  | delete =>
    obtain rfl := Option.some.inj hs
    exact h.append fun slot w => labels_deleteImages
  | miss slot =>
    simp only [Slots.step] at hs
    split_ifs at hs
    obtain rfl := Option.some.inj hs
    refine Labelled.append (b := b.flip slot) h fun s w hw => ?_
    obtain rfl := List.mem_singleton.mp hw
    rfl
  | transmit slot frame cells =>
    simp only [Slots.step] at hs
    split_ifs at hs
    obtain rfl := Option.some.inj hs
    refine Labelled.append (b := b.flip slot) h fun s => ?_
    cases cells <;> simp [labels, place]

theorem Labelled.of_reachable (hb : Reachable Slots.step b b') (h : b.Labelled) : b'.Labelled :=
  hb.invariant (fun _ _ _ h hs => h.step hs) h

end Slots

end Meshconf.Terminal
