import Meshconf.Video.Layout

/-! # What the display has received

The compositor offers its galleries to a channel with room for two, and the display takes
them when it can. A gallery that finds no room is lost, and only a later one repairs the
view: the display is up to date once everything is quiet, unless the last gallery was lost.
-/

namespace Meshconf.Video

open Mesh Transition

variable {Id : Type*} [LinearOrder Id]

/-- Capacity of the channel for galleries. -/
def displayCapacity : ℕ := 2

/-- The gallery without tiles. -/
def emptyGallery : GalleryFrame Id := { tiles := [], cols := 0, rows := 0 }

/-- The compositor between its channels, with the values of the drop counters. -/
structure View (Id : Type*) [LinearOrder Id] where
  compositor : Compositor Id := {}
  frames : List (Id × RgbFrame) := []
  commands : List (CompositorCommand Id) := []
  drops : ℕ → ℕ := fun _ => 0
  /-- The galleries that wait for the display, oldest first. -/
  waiting : List (GalleryFrame Id) := []
  /-- The galleries that the display has received, oldest first. -/
  received : List (GalleryFrame Id) := []

namespace View

inductive Action (Id : Type*)
  /-- A frame or a command comes into a channel of the compositor. -/
  | sendFrame (p : Id) (frame : RgbFrame)
  | sendCommand (cmd : CompositorCommand Id)
  /-- A session counts a drop. -/
  | countDrop (session : ℕ)
  /-- The compositor takes a frame, or a command. -/
  | takeFrame
  | takeCommand
  /-- The display takes a gallery. -/
  | display

/-- Offer a gallery without waiting. -/
def trySend (v : View Id) (g : GalleryFrame Id) : View Id :=
  if v.waiting.length < displayCapacity then { v with waiting := v.waiting ++ [g] } else v

/-- The compositor has taken an input. -/
def react (v : View Id) (r : Compositor Id × Option (GalleryFrame Id)) : View Id :=
  match r.2 with
  | some g => { v with compositor := r.1 }.trySend g
  | none => { v with compositor := r.1 }

def step (v : View Id) : Action Id → Option (View Id)
  | .sendFrame p frame => some { v with frames := v.frames ++ [(p, frame)] }
  | .sendCommand cmd => some { v with commands := v.commands ++ [cmd] }
  | .countDrop session =>
    some { v with drops := Function.update v.drops session (v.drops session + 1) }
  | .takeFrame =>
    match v.frames with
    | [] => none
    | (p, frame) :: frames =>
      some ({ v with frames }.react (v.compositor.receiveFrame v.drops p frame))
  | .takeCommand =>
    match v.commands with
    | [] => none
    | cmd :: commands =>
      some ({ v with commands }.react (v.compositor.receiveCommand v.drops cmd))
  | .display =>
    match v.waiting with
    | [] => none
    | g :: waiting => some { v with waiting, received := v.received ++ [g] }

/-- The gallery that the compositor would build now. -/
def current (v : View Id) : GalleryFrame Id :=
  (v.compositor.buildGallery v.drops).getD emptyGallery

/-- The last gallery that the display has received. -/
def shown (v : View Id) : GalleryFrame Id := v.received.getLast?.getD emptyGallery

/-- No input is pending and the display has emptied its channel. -/
structure Quiet (v : View Id) : Prop where
  frames : v.frames = []
  commands : v.commands = []
  waiting : v.waiting = []

/-- A quiet display shows what the compositor would build. -/
def UpToDate (v : View Id) : Prop := v.Quiet → v.shown = v.current

/-! ## Galleries that are still to come -/

/-- The compositor will offer a gallery when it takes the command. -/
def Offers (c : Compositor Id) : CompositorCommand Id → Prop
  | .removePeer _ => True
  | .setPeerName .. => c.latestFrames.entries ≠ []
  | .setConnectionKind .. => c.latestFrames.entries ≠ []
  | .setVideoDropCounter .. => False

/-- An input is pending for which a gallery will be offered. -/
def Awaits (c : Compositor Id) (frames : List (Id × RgbFrame))
    (commands : List (CompositorCommand Id)) : Prop :=
  frames ≠ [] ∨ ∃ cmd ∈ commands, Offers c cmd

/-- The last gallery that found room in the channel. -/
def lastSent (v : View Id) : GalleryFrame Id :=
  (v.received ++ v.waiting).getLast?.getD emptyGallery

/-- If the gallery finds no room, another one will come, or nothing new is lost with it. -/
def Heard (v : View Id) (r : Compositor Id × Option (GalleryFrame Id))
    (frames : List (Id × RgbFrame)) (commands : List (CompositorCommand Id)) : Prop :=
  ∀ g, r.2 = some g → v.waiting.length < displayCapacity ∨ Awaits r.1 frames commands ∨
    v.lastSent = g

/-- A step after which the last gallery sent is current, or another gallery is to come. -/
def Timely (v : View Id) : Action Id → Prop
  | .takeFrame =>
    match v.frames with
    | [] => True
    | (p, frame) :: frames => v.Heard (v.compositor.receiveFrame v.drops p frame) frames v.commands
  | .takeCommand =>
    match v.commands with
    | [] => True
    | .setVideoDropCounter p session :: commands =>
      p ∉ v.compositor.latestFrames ∨
        v.drops session = ((v.compositor.peerDropCounters.lookup p).map v.drops).getD 0 ∨
        Awaits v.compositor v.frames commands
    | cmd :: commands => v.Heard (v.compositor.receiveCommand v.drops cmd) v.frames commands
  | .countDrop session =>
    (∀ p ∈ v.compositor.latestFrames, v.compositor.peerDropCounters.lookup p ≠ some session) ∨
      Awaits v.compositor v.frames v.commands
  | _ => True

/-- The last gallery sent is current, or another one is to come. -/
def InStep (v : View Id) : Prop :=
  Awaits v.compositor v.frames v.commands ∨ v.lastSent = v.current

variable {v v' : View Id} {c c' : Compositor Id} {frames : List (Id × RgbFrame)}
  {commands : List (CompositorCommand Id)}

theorem Awaits.congr (hc : c'.latestFrames = c.latestFrames) (h : Awaits c frames commands) :
    Awaits c' frames commands := by
  rcases h with h | ⟨cmd, hmem, hcmd⟩
  · exact .inl h
  · refine .inr ⟨cmd, hmem, ?_⟩
    cases cmd with
    | removePeer p => exact hcmd
    | setVideoDropCounter p session => exact hcmd
    | _ =>
      unfold Offers at hcmd ⊢
      rw [hc]
      exact hcmd

/-- A pending gallery is still pending when another command has gone. -/
theorem Awaits.of_cons {cmd : CompositorCommand Id} (hcmd : ¬ Offers c cmd)
    (h : Awaits c frames (cmd :: commands)) : Awaits c frames commands := by
  rcases h with h | ⟨cmd', hmem, hcmd'⟩
  · exact .inl h
  · rcases List.mem_cons.mp hmem with rfl | hmem
    · exact absurd hcmd' hcmd
    · exact .inr ⟨cmd', hmem, hcmd'⟩

theorem upToDate_of_inStep (h : v.InStep) : v.UpToDate := by
  rintro ⟨hframes, hcommands, hwaiting⟩
  rcases h with h | h
  · rcases h with h | ⟨cmd, hmem, -⟩
    · exact absurd hframes h
    · rw [hcommands] at hmem
      cases hmem
  · rw [← h, lastSent, hwaiting, List.append_nil, shown]

theorem buildGallery_eq_none {drops : ℕ → ℕ} :
    c.buildGallery drops = none ↔ c.latestFrames.entries = [] := by
  simp [Compositor.buildGallery]

/-! ## Steps -/

theorem lastSent_trySend {g : GalleryFrame Id} : (v.trySend g).lastSent =
    if v.waiting.length < displayCapacity then g else v.lastSent := by
  unfold trySend
  split_ifs
  · simp [lastSent]
  · rfl

theorem trySend_fields {g : GalleryFrame Id} : (v.trySend g).compositor = v.compositor ∧
    (v.trySend g).frames = v.frames ∧ (v.trySend g).commands = v.commands ∧
    (v.trySend g).drops = v.drops := by
  unfold trySend
  split_ifs <;> exact ⟨rfl, rfl, rfl, rfl⟩

/-- What is offered is current. -/
theorem inStep_react {r : Compositor Id × Option (GalleryFrame Id)} {g : GalleryFrame Id}
    (hr : r.2 = some g) (hg : (r.1.buildGallery v.drops).getD emptyGallery = g)
    (hheard : v.Heard r v.frames v.commands) : (v.react r).InStep := by
  obtain ⟨hc, hf, hcmds, hd⟩ := trySend_fields (v := { v with compositor := r.1 }) (g := g)
  unfold react InStep current
  rw [hr]
  dsimp only
  rw [hc, hf, hcmds, hd, hg, lastSent_trySend]
  rcases hheard g hr with hroom | hawait | hsame
  · rw [if_pos hroom]
    exact .inr rfl
  · exact .inl hawait
  · refine .inr ?_
    split_ifs
    · rfl
    · exact hsame

theorem step_takeFrame (hs : v.step .takeFrame = some v') : ∃ p frame frames,
    v.frames = (p, frame) :: frames ∧
      v' = { v with frames }.react (v.compositor.receiveFrame v.drops p frame) := by
  rw [step] at hs
  split at hs
  · cases hs
  · rename_i p frame frames hv
    exact ⟨p, frame, frames, hv, (Option.some.inj hs).symm⟩

theorem step_takeCommand (hs : v.step .takeCommand = some v') : ∃ cmd commands,
    v.commands = cmd :: commands ∧
      v' = { v with commands }.react (v.compositor.receiveCommand v.drops cmd) := by
  rw [step] at hs
  split at hs
  · cases hs
  · rename_i cmd commands hv
    exact ⟨cmd, commands, hv, (Option.some.inj hs).symm⟩

theorem step_display (hs : v.step .display = some v') : ∃ g waiting,
    v.waiting = g :: waiting ∧ v' = { v with waiting, received := v.received ++ [g] } := by
  rw [step] at hs
  split at hs
  · cases hs
  · rename_i g waiting hv
    exact ⟨g, waiting, hv, (Option.some.inj hs).symm⟩

theorem inStep_takeFrame {p : Id} {frame : RgbFrame} (hv : v.frames = (p, frame) :: frames)
    (ht : v.Timely .takeFrame) :
    ({ v with frames }.react (v.compositor.receiveFrame v.drops p frame)).InStep := by
  rw [Timely, hv] at ht
  set c := (v.compositor.receiveFrame v.drops p frame).1 with hc
  obtain ⟨g, hg, -⟩ : ∃ g, c.buildGallery v.drops = some g ∧ ∃ tile ∈ g.tiles, tile.peerId = p :=
    Compositor.exists_tile (AList.mem_insert v.compositor.latestFrames |>.mpr (.inl rfl))
  refine inStep_react (v := { v with frames }) hg ?_ ht
  rw [← hc, hg]
  rfl

/-- Commands that build a gallery, where there is something to show. -/
theorem inStep_rebuild {cmd : CompositorCommand Id} {c' : Compositor Id}
    (hr : v.compositor.receiveCommand v.drops cmd = (c', c'.buildGallery v.drops))
    (hframes : c'.latestFrames = v.compositor.latestFrames)
    (hcmd : Offers v.compositor cmd ↔ v.compositor.latestFrames.entries ≠ [])
    (hv : v.commands = cmd :: commands) (h : v.InStep)
    (hheard : v.Heard (v.compositor.receiveCommand v.drops cmd) v.frames commands) :
    ({ v with commands }.react (v.compositor.receiveCommand v.drops cmd)).InStep := by
  rw [hr] at hheard ⊢
  cases hg : c'.buildGallery v.drops with
  | some g =>
    rw [hg] at hheard
    refine inStep_react (v := { v with commands }) rfl ?_ hheard
    rw [hg]
    rfl
  | none =>
    -- nothing is shown, before and after
    have hempty : v.compositor.latestFrames.entries = [] := by
      rw [← hframes]
      exact buildGallery_eq_none.mp hg
    rcases h with hawait | hsent
    · rw [hv] at hawait
      exact .inl ((hawait.of_cons (by rw [hcmd, hempty]; simp)).congr hframes)
    · refine .inr ?_
      have hnow : v.current = emptyGallery := by
        rw [current, buildGallery_eq_none.mpr hempty, Option.getD_none]
      have hthen : (c'.buildGallery v.drops).getD emptyGallery = emptyGallery := by
        rw [hg, Option.getD_none]
      exact (hsent.trans hnow).trans hthen.symm

theorem inStep_takeCommand {cmd : CompositorCommand Id} (hv : v.commands = cmd :: commands)
    (ht : v.Timely .takeCommand) (h : v.InStep) :
    ({ v with commands }.react (v.compositor.receiveCommand v.drops cmd)).InStep := by
  cases cmd with
  | removePeer p =>
    rw [Timely, hv] at ht
    exact inStep_react (v := { v with commands }) rfl rfl ht
  | setPeerName p name =>
    have hheard := ht
    rw [Timely, hv] at hheard
    exact inStep_rebuild rfl rfl Iff.rfl hv h hheard
  | setConnectionKind p kind =>
    have hheard := ht
    rw [Timely, hv] at hheard
    exact inStep_rebuild rfl rfl Iff.rfl hv h hheard
  | setVideoDropCounter p session =>
    rw [Timely, hv] at ht
    have hawait : Awaits v.compositor v.frames commands →
        ({ v with commands }.react
          (v.compositor.receiveCommand v.drops (.setVideoDropCounter p session))).InStep :=
      fun hawait => .inl (hawait.congr rfl)
    rcases h with h | h
    · rw [hv] at h
      exact hawait (h.of_cons id)
    have hcurrent (hsame : ∀ q ∈ v.compositor.latestFrames,
        ((v.compositor.peerDropCounters.lookup q).map v.drops).getD 0 =
          (((v.compositor.peerDropCounters.insert p session).lookup q).map v.drops).getD 0) :
        ({ v with commands }.react
          (v.compositor.receiveCommand v.drops (.setVideoDropCounter p session))).InStep :=
      .inr (h.trans (congrArg (Option.getD · emptyGallery)
        (Compositor.buildGallery_congr (fun _ => rfl) (fun _ => rfl) (fun _ => rfl) hsame)))
    rcases ht with hframe | hcount | ht
    · refine hcurrent fun q hq => ?_
      have hne : q ≠ p := fun heq => hframe (heq ▸ hq)
      rw [AList.lookup_insert_ne hne]
    · refine hcurrent fun q hq => ?_
      by_cases heq : q = p
      · rw [heq, AList.lookup_insert, Option.map_some, Option.getD_some, hcount]
      · rw [AList.lookup_insert_ne heq]
    · exact hawait ht

theorem inStep_countDrop {session : ℕ} (ht : v.Timely (.countDrop session)) (h : v.InStep) :
    InStep { v with drops := Function.update v.drops session (v.drops session + 1) } := by
  rcases h with h | h
  · exact .inl h
  rcases ht with hunread | ht
  · refine .inr (h.trans (congrArg (Option.getD · emptyGallery) ?_))
    refine Compositor.buildGallery_congr (fun _ => rfl) (fun _ => rfl) (fun _ => rfl) ?_
    intro p hp
    cases hlook : v.compositor.peerDropCounters.lookup p with
    | none => rfl
    | some other =>
      have hne : other ≠ session := fun heq => hunread p hp (heq ▸ hlook)
      simp [Function.update_of_ne hne]
  · exact .inl ht

theorem InStep.step {a : Action Id} (h : v.InStep) (ht : v.Timely a) (hs : v.step a = some v') :
    v'.InStep := by
  cases a with
  | sendFrame p frame =>
    obtain rfl := Option.some.inj hs
    exact .inl (.inl (List.append_ne_nil_of_right_ne_nil _ (List.cons_ne_nil _ _)))
  | sendCommand cmd =>
    obtain rfl := Option.some.inj hs
    rcases h with (h | ⟨cmd', hmem, hcmd'⟩) | h
    · exact .inl (.inl h)
    · exact .inl (.inr ⟨cmd', List.mem_append_left _ hmem, hcmd'⟩)
    · exact .inr h
  | countDrop session =>
    obtain rfl := Option.some.inj hs
    exact inStep_countDrop ht h
  | takeFrame =>
    obtain ⟨p, frame, frames, hv, rfl⟩ := step_takeFrame hs
    exact inStep_takeFrame hv ht
  | takeCommand =>
    obtain ⟨cmd, commands, hv, rfl⟩ := step_takeCommand hs
    exact inStep_takeCommand hv ht h
  | display =>
    obtain ⟨g, waiting, hv, rfl⟩ := step_display hs
    refine h.imp id fun hsent => ?_
    have hsame : lastSent { v with waiting, received := v.received ++ [g] } = v.lastSent := by
      simp [lastSent, hv]
    exact hsame.trans hsent

/--
If no step loses the last gallery that is to come, a quiet display shows what the compositor would
build.
-/
theorem upToDate_of_timely {as : List (Action Id)} (h : Run step Timely {} as v) : v.UpToDate :=
  upToDate_of_inStep (h.invariant (fun _ _ _ hv ht hs => hv.step ht hs) (.inr rfl))

/-- A frame, and a gallery that the display takes before the next input. -/
theorem upToDate_of_timely_oneFrame : ∃ v : View ℕ, v.received.length = 1 ∧ v.UpToDate := by
  have hrun : Run step Timely ({} : View ℕ)
      ([] ++ [.sendFrame 1 ⟨0, 0, 1, 1, [7]⟩] ++ [.takeFrame] ++ [.display]) _ :=
    ((Run.nil.snoc trivial rfl).snoc (fun _ _ => .inl (by decide)) rfl).snoc trivial rfl
  exact ⟨_, rfl, upToDate_of_timely hrun⟩

/-- Two galleries wait when the last peer is removed. -/
def lateRemoval : List (Action ℕ) :=
  [.sendFrame 1 ⟨0, 0, 1, 1, [7]⟩, .sendFrame 1 ⟨1, 0, 1, 1, [8]⟩, .takeFrame, .takeFrame,
    .sendCommand (.removePeer 1), .takeCommand, .display, .display]

/-- The compositor before the removal. -/
def showing : Compositor ℕ :=
  .after [.frame 1 ⟨0, 0, 1, 1, [7]⟩, .frame 1 ⟨1, 0, 1, 1, [8]⟩]

/-- What the run ends with. -/
def stale : View ℕ where
  compositor := showing.apply (.removePeer 1)
  received :=
    [((Compositor.after [.frame 1 ⟨0, 0, 1, 1, [7]⟩]).buildGallery fun _ => 0).getD emptyGallery,
      (showing.buildGallery fun _ => 0).getD emptyGallery]

/-- The display goes on showing a peer that is gone. -/
theorem not_upToDate : ¬ ∀ v : View ℕ, Reachable step {} v → v.UpToDate := by
  intro h
  have hexec : exec step {} lateRemoval = some stale := rfl
  have hshown : stale.shown = stale.current := h stale ⟨_, run_of_exec hexec⟩ ⟨rfl, rfl, rfl⟩
  have hcurrent : stale.current = emptyGallery := rfl
  obtain ⟨g, hg, tile, htile, -⟩ : ∃ g, showing.buildGallery (fun _ => 0) = some g ∧
      ∃ tile ∈ g.tiles, tile.peerId = 1 := Compositor.exists_tile (by decide)
  have hlast : stale.shown = g := congrArg (Option.getD · emptyGallery) hg
  rw [← hlast, hshown, hcurrent] at htile
  cases htile

end View

end Meshconf.Video
